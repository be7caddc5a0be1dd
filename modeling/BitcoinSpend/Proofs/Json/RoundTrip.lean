import BitcoinSpend.Json.Members
import BitcoinSpend.Json.Text
import Mathlib.Data.String.Basic

namespace BitcoinSpend

namespace Json

variable {c : Char} {cs rest : List Char}

/-- A character that stands for itself. -/
theorem quotedBody?_plain (hquote : c ≠ '"') (hslash : c ≠ '\\') (hlow : 32 ≤ c.toNat) :
    quotedBody? (c :: cs) = prepend c (quotedBody? cs) := by
  have hplain : ¬(c.toNat < 32 ∨ c = '\\') := not_or.mpr ⟨Nat.not_lt.mpr hlow, hslash⟩
  rw [quotedBody?.eq_def]
  split
  next heq => cases heq
  next heq => cases heq; exact absurd rfl hquote
  next heq => cases heq; exact absurd rfl hslash
  next heq => cases heq; exact absurd rfl hslash
  next heq => cases heq; exact absurd rfl hslash
  next heq => cases heq; rw [if_neg hplain]

theorem quotedBody?_unescape {letter : Char} (h : unescape? letter = some c) :
    quotedBody? ('\\' :: letter :: cs) = prepend c (quotedBody? cs) := by
  have hletter : letter ≠ 'u' := by
    rintro rfl
    simp [unescape?] at h
  rw [quotedBody?.eq_def]
  split
  next heq => cases heq
  next heq => cases heq
  next heq => cases heq; exact absurd rfl hletter
  next heq => cases heq; exact absurd rfl hletter
  next heq => cases heq; rw [h]
  next hother heq => cases heq; exact absurd rfl (hother _ _ rfl)

/-- Four digits of a character that is no surrogate. -/
theorem quotedBody?_unit {a b c d : Char} {n : Nat} (hunit : unit? a b c d = some n)
    (hn : n < 0xd800) :
    quotedBody? ('\\' :: 'u' :: a :: b :: c :: d :: cs) =
      prepend (Char.ofNat n) (quotedBody? cs) := by
  have hhigh : isHighSurrogate n = false := by
    simp only [isHighSurrogate, Bool.and_eq_false_imp, decide_eq_true_eq]
    omega
  have hlow : isLowSurrogate n = false := by
    simp only [isLowSurrogate, Bool.and_eq_false_imp, decide_eq_true_eq]
    omega
  rw [quotedBody?.eq_def]
  split
  next heq => cases heq
  next heq => cases heq
  next heq => cases heq; simp [hunit, hhigh, hlow]
  next heq => cases heq; simp [hunit, hhigh, hlow]
  next hother heq => cases heq; exact absurd rfl (hother _ _ _ _ _ rfl)
  next hother heq => cases heq; exact absurd rfl (hother _ _ rfl)

theorem unit?_digits (n : Fin 32) :
    unit? '0' '0' (Hex.digit (UInt8.ofNat n / 16)) (Hex.digit (UInt8.ofNat n % 16)) = some n := by
  decide +revert

theorem quotedBody?_escaped (c : Char) (cs : List Char) :
    quotedBody? (escaped c ++ cs) = prepend c (quotedBody? cs) := by
  have hself : ∀ {n}, c.toNat = n → Char.ofNat n = c := fun h => h ▸ Char.ofNat_toNat c
  unfold escaped
  split
  next h => exact quotedBody?_unescape (congrArg some (hself h))
  next h => exact quotedBody?_unescape (congrArg some (hself h))
  next h => exact quotedBody?_unescape (congrArg some (hself h))
  next h => exact quotedBody?_unescape (congrArg some (hself h))
  next h => exact quotedBody?_unescape (congrArg some (hself h))
  next h =>
    obtain rfl := hself h
    exact quotedBody?_unescape rfl
  next h =>
    obtain rfl := hself h
    exact quotedBody?_unescape rfl
  next hquote hslash =>
    split
    next hlow =>
      have hbefore : c.toNat < 0xd800 := by omega
      have hunit := @quotedBody?_unit cs _ _ _ _ _ (unit?_digits ⟨c.toNat, hlow⟩) hbefore
      rwa [Char.ofNat_toNat] at hunit
    next hlow =>
      refine quotedBody?_plain ?_ ?_ (Nat.not_lt.mp hlow)
      · rintro rfl
        exact hquote rfl
      · rintro rfl
        exact hslash rfl

theorem quotedBody?_flatMap_escaped (cs rest : List Char) :
    quotedBody? (cs.flatMap escaped ++ '"' :: rest) = some (cs, rest) := by
  induction cs with
  | nil => simp [quotedBody?]
  | cons c cs ih =>
    rw [List.flatMap_cons, List.append_assoc, quotedBody?_escaped, ih]
    rfl

theorem toList_quoted_append (s : String) (rest : List Char) :
    (quoted s).toList ++ rest = '"' :: (s.toList.flatMap escaped ++ '"' :: rest) := by
  simp [quoted]

theorem string?_quoted (s : String) (rest : List Char) :
    string? ((quoted s).toList ++ rest) = some (s, rest) := by
  simp [toList_quoted_append, string?, quotedBody?_flatMap_escaped]

/-- A member as it is laid out, without the start of its line. -/
def memberChars (m : String × String) : List Char :=
  (quoted m.1).toList ++ ':' :: ' ' :: (quoted m.2).toList

/-- The start of the line of a member. -/
def lineStart : List Char :=
  ['\n', ' ', ' ']

/-- What is laid out behind the first member. -/
def behindMember (ms : List (String × String)) : List Char :=
  ms.flatMap (fun m => ',' :: (lineStart ++ memberChars m)) ++ ['\n', '\x7d']

theorem length_le_behindMember (ms : List (String × String)) :
    ms.length ≤ (behindMember ms).length := by
  induction ms with
  | nil => exact Nat.zero_le _
  | cons m ms ih =>
    simp only [behindMember, List.flatMap_cons, List.length_append, List.length_cons] at ih ⊢
    omega

theorem skipSpace_quoted (s : String) (rest : List Char) :
    skipSpace ((quoted s).toList ++ rest) = (quoted s).toList ++ rest := by
  rw [toList_quoted_append]
  rfl

theorem skipSpace_lineStart (cs : List Char) : skipSpace (lineStart ++ cs) = skipSpace cs := rfl

theorem member?_lineStart (cs : List Char) : member? (lineStart ++ cs) = member? cs := by
  simp only [member?, skipSpace_lineStart]

theorem member?_memberChars (m : String × String) (rest : List Char) :
    member? (memberChars m ++ rest) = some (m, skipSpace rest) := by
  have hcolon : ∀ cs, skipSpace (':' :: ' ' :: cs) = ':' :: ' ' :: cs := fun _ => rfl
  have hblank : ∀ cs, skipSpace (' ' :: cs) = skipSpace cs := fun _ => rfl
  simp only [member?, memberChars, List.append_assoc, List.cons_append, skipSpace_quoted,
    string?_quoted, hcolon, hblank, Option.bind_eq_bind, Option.bind_some, Option.pure_def]

theorem members?_memberChars {m : String × String} {ms : List (String × String)} {bound : Nat}
    (hbound : ms.length < bound) :
    members? bound (memberChars m ++ behindMember ms) = some (m :: ms, []) := by
  induction ms generalizing m bound with
  | nil =>
    obtain ⟨bound, rfl⟩ := Nat.exists_eq_add_of_lt hbound
    simp only [members?, member?_memberChars]
    rfl
  | cons m' ms ih =>
    obtain ⟨bound, rfl⟩ := Nat.exists_eq_add_of_lt hbound
    have hbehind : skipSpace (behindMember (m' :: ms)) =
        ',' :: (lineStart ++ (memberChars m' ++ behindMember ms)) := by
      simp [behindMember, skipSpace, isSpace]
    have hstart : ∀ n cs, members? n (lineStart ++ cs) = members? n cs := by
      intro n cs
      cases n <;> simp only [members?, member?_lineStart]
    have hlength : ms.length < (m' :: ms).length + bound := by simp; omega
    simp only [members?, member?_memberChars, hbehind, hstart, ih hlength, Option.bind_eq_bind,
      Option.bind_some, Option.pure_def]

theorem layoutMembers_text (ms : List (String × String)) :
    layoutMembers 1 (ms.map fun m => (m.1, .text m.2)) =
      ms.map fun m => String.ofList (lineStart ++ memberChars m) := by
  induction ms with
  | nil => rfl
  | cons m ms ih =>
    have hline : indent 1 ++ quoted m.1 ++ ": " ++ quoted m.2 =
        String.ofList (lineStart ++ memberChars m) := by
      refine String.toList_inj.mp ?_
      simp [indent, lineStart, memberChars]
    simp only [List.map_cons, layoutMembers, layout, ih, hline]

theorem intercalate_singleton_cons {α : Type} (sep : α) (front : List α) (rest : List (List α)) :
    [sep].intercalate (front :: rest) = front ++ rest.flatMap (sep :: ·) := by
  induction rest generalizing front with
  | nil => simp [List.intercalate]
  | cons next rest ih =>
    rw [List.flatMap_cons, List.cons_append, ← ih next]
    simp [List.intercalate]

/-- The file of a map of texts reads as this map. -/
theorem readMembers?_pretty (ms : List (String × String)) :
    readMembers? (object (ms.map fun m => (m.1, .text m.2))).pretty = some ms := by
  cases ms with
  | nil => rfl
  | cons m ms =>
    have htext : (object ((m :: ms).map fun m => (m.1, .text m.2))).pretty.toList =
        '\x7b' :: (lineStart ++ (memberChars m ++ behindMember ms)) := by
      show (layout 0 (object ((m.1, .text m.2) :: ms.map fun m => (m.1, .text m.2)))).toList = _
      have hlines := layoutMembers_text (m :: ms)
      simp only [List.map_cons] at hlines
      rw [layout, Nat.zero_add, hlines]
      · simp [intercalate_singleton_cons, behindMember, indent, List.flatMap_map]
      · simp
    have hfirst : skipSpace (lineStart ++ (memberChars m ++ behindMember ms)) =
        memberChars m ++ behindMember ms := by
      rw [skipSpace_lineStart, memberChars, List.append_assoc, skipSpace_quoted]
    have hread : members? (memberChars m ++ behindMember ms).length
        (memberChars m ++ behindMember ms) = some (m :: ms, []) := by
      refine members?_memberChars ?_
      have hcount := length_le_behindMember ms
      rw [List.length_append, memberChars, toList_quoted_append, List.length_cons]
      omega
    have hopen : ∀ cs, skipSpace ('\x7b' :: cs) = '\x7b' :: cs := fun _ => rfl
    simp only [readMembers?, htext, hopen, hfirst]
    split
    next rest heq =>
      rw [memberChars, List.append_assoc, toList_quoted_append] at heq
      cases heq
    next =>
      rw [hread]
      rfl

end Json

end BitcoinSpend
