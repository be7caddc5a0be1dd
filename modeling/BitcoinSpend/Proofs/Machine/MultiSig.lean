import BitcoinSpend.Curve.Ecdsa
import BitcoinSpend.Proofs.Machine.Template
import Mathlib.Data.List.FinRange
import Mathlib.Data.List.Perm.Subperm

namespace BitcoinSpend

section

variable {α β : Type} {R : α → β → Prop} {xs xs' : List α} {ys ys' : List β}

theorem perm_swapRemove {i : Nat} {x : α} (h : xs[i]? = some x) :
    (x :: swapRemove xs i).Perm xs := by
  obtain ⟨hi, rfl⟩ := List.getElem?_eq_some_iff.mp h
  cases xs using List.reverseRecOn with
  | nil => simp at hi
  | append_singleton front last =>
    simp only [swapRemove, List.getLast?_concat]
    have hend := (List.perm_append_singleton last front).symm
    by_cases hfront : i < front.length
    · rw [List.set_append_left _ _ hfront, List.dropLast_concat, List.getElem_append_left hfront]
      have hset := (List.set_perm_cons_eraseIdx hfront last).cons front[i]
      have hback := (List.getElem_cons_eraseIdx_perm hfront).cons last
      exact ((hset.trans (.swap _ _ _)).trans hback).trans hend
    · have hlast : i = front.length := by
        simp only [List.length_append, List.length_singleton] at hi
        omega
      subst hlast
      simpa using hend

/-- Every item of the first list has an item of the second list to itself. -/
def Assigns (R : α → β → Prop) (xs : List α) (ys : List β) : Prop :=
  ∃ zs, List.Forall₂ R xs zs ∧ zs.Subperm ys

theorem Assigns.perm (h : Assigns R xs ys) (hxs : xs'.Perm xs) (hys : ys.Perm ys') :
    Assigns R xs' ys' := by
  obtain ⟨zs, hzs, hsub⟩ := h
  obtain ⟨zs', hzs', hperm⟩ := List.perm_comp_forall₂ hxs hzs
  exact ⟨zs', hzs', hperm.subperm.trans (hsub.trans hys.subperm)⟩

theorem Assigns.cons {x : α} {y : β} (hxy : R x y) (h : Assigns R xs ys) :
    Assigns R (x :: xs) (y :: ys) := by
  obtain ⟨zs, hzs, hsub⟩ := h
  exact ⟨y :: zs, .cons hxy hzs, (List.subperm_cons y).mpr hsub⟩

theorem Assigns.exists_cons [BEq β] [LawfulBEq β] {x : α} (h : Assigns R (x :: xs) ys) :
    ∃ y ∈ ys, R x y ∧ Assigns R xs (ys.erase y) := by
  obtain ⟨_, hzs, hsub⟩ := h
  cases hzs with
  | @cons _ y _ zs hxy hzs =>
    have hy : y ∈ ys := hsub.subset List.mem_cons_self
    have hrest : (y :: zs).Subperm (y :: ys.erase y) :=
      hsub.trans (List.perm_cons_erase hy).subperm
    exact ⟨y, hy, hxy, zs, hzs, (List.subperm_cons y).mp hrest⟩

theorem assigns_iff_exists_injective [BEq β] [LawfulBEq β] : Assigns R xs ys ↔
    ∃ f : Fin xs.length → Fin ys.length, f.Injective ∧ ∀ i, R (xs.get i) (ys.get (f i)) := by
  constructor
  · intro h
    obtain ⟨zs, hzs, hsub⟩ := h
    obtain ⟨hlen, hall⟩ := List.forall₂_iff_get.mp hzs
    refine ⟨fun i => hsub.idxInj (i.cast hlen), ?_, fun i => ?_⟩
    · exact hsub.idxInj_injective.comp (Fin.cast_injective hlen)
    · have heq := hsub.getElem_idxInj_eq_getElem (i := i.cast hlen)
      have hi := hall i i.isLt (i.cast hlen).isLt
      show R (xs.get i) ys[(hsub.idxInj (i.cast hlen) : Nat)]
      rw [heq]
      exact hi
  · intro h
    obtain ⟨f, hf, hall⟩ := h
    refine ⟨(List.ofFn f).map ys.get, ?_, ?_⟩
    · rw [List.forall₂_iff_get]
      refine ⟨by simp, fun i hi _ => ?_⟩
      simpa using hall ⟨i, hi⟩
    · have hsub : (List.ofFn f).Subperm (List.finRange ys.length) :=
        (List.nodup_ofFn.mpr hf).subperm fun j _ => List.mem_finRange j
      obtain ⟨l, hperm, hl⟩ := hsub
      have hmap := hl.map ys.get
      rw [List.map_get_finRange] at hmap
      exact ⟨l.map ys.get, hperm.map ys.get, hmap⟩

end

namespace Context

variable {ctx : Context} {sig : Bytes} {sigs keys : List Bytes} {points : List ctx.scheme.Point}

/-- A signature can be read and verifies for a point. -/
def Verifies (ctx : Context) (sig : Bytes) (p : ctx.scheme.Point) : Prop :=
  ∃ s, ctx.parseSignature sig = some s ∧ ctx.scheme.verify p ctx.digest s = true

theorem signs_iff_exists_verifies {key : Bytes} : ctx.scheme.Signs ctx.digest sig key ↔
    ∃ p, ctx.scheme.parsePoint key = some p ∧ ctx.Verifies sig p := by
  unfold SignatureScheme.Signs Verifies parseSignature
  cases sig with
  | nil => simp
  | cons b sig => simp

/-- A signature takes one of the points that it verifies for out of those that are left, and without
such a point the check answers false. -/
theorem matchAll_cons (ctx : Context) (points : List ctx.scheme.Point) (sig : Bytes)
    (sigs : List Bytes) :
    (∃ i p, points[i]? = some p ∧ ctx.Verifies sig p ∧
      ctx.matchAll points (sig :: sigs) = ctx.matchAll (swapRemove points i) sigs) ∨
    (∀ p ∈ points, ¬ctx.Verifies sig p) ∧ ctx.matchAll points (sig :: sigs) = false := by
  cases hs : ctx.parseSignature sig with
  | none => exact Or.inr ⟨by simp [Verifies, hs], by simp [matchAll, hs]⟩
  | some s =>
    cases hfind : points.findIdx? fun p => ctx.scheme.verify p ctx.digest s with
    | none =>
      have hnone := List.findIdx?_eq_none_iff.mp hfind
      exact Or.inr ⟨by simpa [Verifies, hs] using hnone, by simp [matchAll, hs, hfind]⟩
    | some i =>
      obtain ⟨hi, hverify, _⟩ := List.findIdx?_eq_some_iff_getElem.mp hfind
      exact Or.inl ⟨i, points[i], List.getElem?_eq_getElem hi, ⟨s, hs, hverify⟩,
        by simp [matchAll, hs, hfind]⟩

/-- The points that are left when one is taken are those of the keys without one of its keys. -/
theorem exists_key_of_point {i : Nat} {p : ctx.scheme.Point}
    (hpool : points.Perm (keys.filterMap ctx.scheme.parsePoint)) (hp : points[i]? = some p) :
    ∃ key ∈ keys, ctx.scheme.parsePoint key = some p := by
  have hmem := hpool.subset (List.mem_of_getElem? hp)
  exact List.mem_filterMap.mp hmem

theorem perm_swapRemove_points {i : Nat} {key : Bytes} {p : ctx.scheme.Point}
    (hpool : points.Perm (keys.filterMap ctx.scheme.parsePoint)) (hp : points[i]? = some p)
    (hkey : key ∈ keys) (hparse : ctx.scheme.parsePoint key = some p) :
    (swapRemove points i).Perm ((keys.erase key).filterMap ctx.scheme.parsePoint) := by
  have hkeys := (List.perm_cons_erase hkey).filterMap ctx.scheme.parsePoint
  rw [List.filterMap_cons_some hparse] at hkeys
  exact (((perm_swapRemove hp).trans hpool).trans hkeys).cons_inv

theorem assigns_of_matchAll (hpool : points.Perm (keys.filterMap ctx.scheme.parsePoint))
    (h : ctx.matchAll points sigs = true) :
    Assigns (ctx.scheme.Signs ctx.digest) sigs keys := by
  induction sigs generalizing points keys with
  | nil => exact ⟨[], .nil, List.nil_subperm⟩
  | cons sig sigs ih =>
    rcases ctx.matchAll_cons points sig sigs with ⟨i, p, hp, hverifies, heq⟩ | ⟨_, heq⟩
    · obtain ⟨key, hkey, hparse⟩ := exists_key_of_point hpool hp
      have hrest := ih (perm_swapRemove_points hpool hp hkey hparse) (heq.symm.trans h)
      have hsigns := signs_iff_exists_verifies.mpr ⟨p, hparse, hverifies⟩
      exact (hrest.cons hsigns).perm (.refl _) (List.perm_cons_erase hkey).symm
    · rw [heq] at h
      cases h

/-- Every signature verifies for a key of its own. -/
def Matching (ctx : Context) (sigs keys : List Bytes) : Prop :=
  ∃ f : Fin sigs.length → Fin keys.length, f.Injective ∧
    ∀ i, ctx.scheme.Signs ctx.digest (sigs.get i) (keys.get (f i))

theorem matching_iff_assigns :
    ctx.Matching sigs keys ↔ Assigns (ctx.scheme.Signs ctx.digest) sigs keys :=
  assigns_iff_exists_injective.symm

/-- No signature is accepted for keys with different points. -/
def TellsApart (ctx : Context) (sigs keys : List Bytes) : Prop :=
  ∀ sig ∈ sigs, ∀ key ∈ keys, ∀ key' ∈ keys, ctx.scheme.Signs ctx.digest sig key →
    ctx.scheme.Signs ctx.digest sig key' → ctx.scheme.parsePoint key = ctx.scheme.parsePoint key'

theorem TellsApart.tail {key : Bytes} (h : ctx.TellsApart (sig :: sigs) keys) :
    ctx.TellsApart sigs (keys.erase key) :=
  fun s hs k hk k' hk' => h s (List.mem_cons_of_mem sig hs) k (List.mem_of_mem_erase hk) k'
    (List.mem_of_mem_erase hk')

/-- A signature may take any of its points where these are all the same. -/
theorem matchAll_of_assigns (hapart : ctx.TellsApart sigs keys)
    (hpool : points.Perm (keys.filterMap ctx.scheme.parsePoint))
    (h : Assigns (ctx.scheme.Signs ctx.digest) sigs keys) : ctx.matchAll points sigs = true := by
  induction sigs generalizing points keys with
  | nil => simp [matchAll]
  | cons sig sigs ih =>
    obtain ⟨key, hkey, hsigns, hrest⟩ := h.exists_cons
    obtain ⟨q, hq, hverifies⟩ := signs_iff_exists_verifies.mp hsigns
    rcases ctx.matchAll_cons points sig sigs with ⟨i, p, hp, hfirst, heq⟩ | ⟨hnone, _⟩
    · obtain ⟨other, hother, hparse⟩ := exists_key_of_point hpool hp
      have hsame := hapart sig List.mem_cons_self key hkey other hother hsigns
        (signs_iff_exists_verifies.mpr ⟨p, hparse, hfirst⟩)
      rw [heq]
      exact ih hapart.tail (perm_swapRemove_points hpool hp hkey (hsame.trans hparse)) hrest
    · have hmem : q ∈ points := hpool.symm.subset (List.mem_filterMap.mpr ⟨key, hkey, hq⟩)
      exact absurd hverifies (hnone q hmem)

theorem TellsApart.perm {sigs' keys' : List Bytes} (h : ctx.TellsApart sigs keys)
    (hsigs : sigs'.Perm sigs) (hkeys : keys'.Perm keys) : ctx.TellsApart sigs' keys' :=
  fun s hs k hk k' hk' => h s (hsigs.subset hs) k (hkeys.subset hk) k' (hkeys.subset hk')

theorem matchAll_eq_true_iff (hapart : ctx.TellsApart sigs keys) :
    ctx.matchAll (keys.filterMap ctx.scheme.parsePoint) sigs = true ↔
      Assigns (ctx.scheme.Signs ctx.digest) sigs keys :=
  ⟨assigns_of_matchAll (.refl _), matchAll_of_assigns hapart (.refl _)⟩

theorem matchAll_perm {sigs' keys' : List Bytes} (hapart : ctx.TellsApart sigs keys)
    (hsigs : sigs'.Perm sigs) (hkeys : keys'.Perm keys) :
    ctx.matchAll (keys'.filterMap ctx.scheme.parsePoint) sigs' =
      ctx.matchAll (keys.filterMap ctx.scheme.parsePoint) sigs := by
  rw [Bool.eq_iff_iff, matchAll_eq_true_iff hapart,
    matchAll_eq_true_iff (hapart.perm hsigs hkeys)]
  exact ⟨fun h => h.perm hsigs.symm hkeys, fun h => h.perm hsigs hkeys.symm⟩

end Context

theorem Stack.popNumber_of_decode {x : Bytes} {n : Int} {s : Stack}
    (h : Number.decode false Number.operandSize x = .ok n) : popNumber (x :: s) = .ok n s := by
  simp [popNumber, ofNumber, h, Except.mapError]

theorem Stack.popMany_append (xs s : Stack) : popMany xs.length (xs ++ s) = .ok xs s := by
  induction xs with
  | nil => rfl
  | cons x xs ih => simp [popMany, ih]

def Opcode.checkMultiSig : Opcode :=
  ⟨0xae⟩

namespace Context

variable {ctx : Context} {sigs keys base alt : Stack} {dummy m n : Bytes} {queue : Script}

/-- The stack on which counted signatures are checked against counted keys, over one more element
that is taken off unread. -/
def countedStack (n : Bytes) (keys : Stack) (m : Bytes) (sigs : Stack) (dummy : Bytes)
    (base : Stack) : Stack :=
  n :: (keys ++ m :: (sigs ++ dummy :: base))

theorem checkMultiSig_eq_ok (hn : Number.decode false Number.operandSize n = .ok keys.length)
    (hkeys : keys.length ≤ 20) (hm : Number.decode false Number.operandSize m = .ok sigs.length)
    (hsigs : sigs.length ≤ keys.length) :
    ctx.checkMultiSig (countedStack n keys m sigs dummy base) =
      .ok (ctx.matchAll (keys.filterMap ctx.scheme.parsePoint) sigs) base := by
  have hkeyCount : ¬((keys.length : Int) < 0 ∨ maxKeys < keys.length) := by
    unfold maxKeys
    omega
  have hsigCount : ¬((sigs.length : Int) < 0 ∨ (keys.length : Int) < sigs.length) := by omega
  simp only [checkMultiSig, countedStack, bind_eq_ok_iff, lift_eq_ok_iff]
  refine ⟨_, _, Stack.popNumber_of_decode hn, ?_⟩
  simp only [if_neg hkeyCount, bind_eq_ok_iff, lift_eq_ok_iff, Int.toNat_natCast]
  refine ⟨keys, _, Stack.popMany_append keys _, _, _, Stack.popNumber_of_decode hm, ?_⟩
  simp only [if_neg hsigCount, bind_eq_ok_iff, lift_eq_ok_iff, Int.toNat_natCast]
  exact ⟨sigs, _, Stack.popMany_append sigs _, dummy, base, rfl, rfl⟩

theorem runCommand_checkMultiSig
    (hn : Number.decode false Number.operandSize n = .ok keys.length) (hkeys : keys.length ≤ 20)
    (hm : Number.decode false Number.operandSize m = .ok sigs.length)
    (hsigs : sigs.length ≤ keys.length) :
    State.runCommand ctx (.op .checkMultiSig) ⟨queue, countedStack n keys m sigs dummy base, alt⟩ =
      .ok ⟨queue, (if ctx.matchAll (keys.filterMap ctx.scheme.parsePoint) sigs then [1] else []) ::
        base, alt⟩ := by
  have hcheck : ctx.checkMultiSig (countedStack n keys m sigs dummy base) = .ok _ base :=
    checkMultiSig_eq_ok hn hkeys hm hsigs
  refine State.onStack_eq_ok_iff.mpr ⟨_, ?_, rfl⟩
  simp [State.pushAnswer, hcheck]

/-- The check of counted signatures takes just what it counts off the stack and leaves an answer. A
true answer says that every signature has a key of its own. Where no signature fits two points, such
keys are always found, so the answer depends on no order. -/
theorem checkMultiSig_decides_matching (ctx : Context) (queue : Script) (base alt : Stack)
    (dummy : Bytes) (hn : Number.decode false Number.operandSize n = .ok keys.length)
    (hkeys : keys.length ≤ 20) (hm : Number.decode false Number.operandSize m = .ok sigs.length)
    (hsigs : sigs.length ≤ keys.length) :
    ∃ result : Bool,
      State.runCommand ctx (.op .checkMultiSig)
          ⟨queue, countedStack n keys m sigs dummy base, alt⟩ =
        .ok ⟨queue, (if result then [1] else []) :: base, alt⟩ ∧
      (result = true → ctx.Matching sigs keys) ∧
      (ctx.TellsApart sigs keys → (ctx.Matching sigs keys → result = true) ∧
        ∀ sigs' keys' dummy', sigs'.Perm sigs → keys'.Perm keys →
          State.runCommand ctx (.op .checkMultiSig)
              ⟨queue, countedStack n keys' m sigs' dummy' base, alt⟩ =
            .ok ⟨queue, (if result then [1] else []) :: base, alt⟩) := by
  refine ⟨_, runCommand_checkMultiSig hn hkeys hm hsigs, ?_, fun hapart => ⟨?_, ?_⟩⟩
  · intro h
    exact matching_iff_assigns.mpr (assigns_of_matchAll (.refl _) h)
  · intro h
    exact (matchAll_eq_true_iff hapart).mpr (matching_iff_assigns.mp h)
  · intro sigs' keys' dummy' hsigsPerm hkeysPerm
    rw [← hkeysPerm.length_eq] at hn hkeys hsigs
    rw [← hsigsPerm.length_eq] at hm hsigs
    rw [runCommand_checkMultiSig hn hkeys hm hsigs, matchAll_perm hapart hsigsPerm hkeysPerm]

def zeroDigest : Context where
  scheme := Secp256k1.scheme
  digest := FixedBytes.zero 32

/-- A signature of the zero digest with the nonce one. -/
def signedBy (secret : Secp256k1.Secret) : Bytes :=
  match Secp256k1.signWith? secret zeroDigest.digest 1 with
  | some sig => Secp256k1.scheme.encodeSignature sig ++ [1]
  | none => []

def keyOf (secret : Secp256k1.Secret) : Bytes :=
  secret.publicKey.encode true

def oneSecret : Secp256k1.Secret :=
  ⟨1, by decide, by decide⟩

def twoSecret : Secp256k1.Secret :=
  ⟨2, by decide, by decide⟩

/-- Two keys around a string that is none, and signatures for them in the other order. -/
theorem checkMultiSig_accepts_either_order :
    State.runCommand zeroDigest (.op .checkMultiSig) ⟨[], countedStack [3]
        [keyOf oneSecret, [5], keyOf twoSecret] [2] [signedBy twoSecret, signedBy oneSecret] [] [],
        []⟩ = .ok ⟨[], [[1]], []⟩ ∧
      State.runCommand zeroDigest (.op .checkMultiSig) ⟨[], countedStack [3]
        [keyOf oneSecret, [5], keyOf twoSecret] [2] [signedBy oneSecret, signedBy twoSecret] [] [],
        []⟩ = .ok ⟨[], [[1]], []⟩ := by
  have hapart : zeroDigest.TellsApart [signedBy twoSecret, signedBy oneSecret]
      [keyOf oneSecret, [5], keyOf twoSecret] := by
    have honly : ∀ sig ∈ [signedBy twoSecret, signedBy oneSecret],
        ∀ key ∈ [keyOf oneSecret, [5], keyOf twoSecret],
          ∀ key' ∈ [keyOf oneSecret, [5], keyOf twoSecret], zeroDigest.accepts sig key = true →
            zeroDigest.accepts sig key' = true → key = key' := by decide +kernel
    intro sig hsig key hkey key' hkey' h h'
    rw [honly sig hsig key hkey key' hkey' (accepts_eq_true_iff.mpr h) (accepts_eq_true_iff.mpr h')]
  have hmatching : zeroDigest.Matching [signedBy twoSecret, signedBy oneSecret]
      [keyOf oneSecret, [5], keyOf twoSecret] := by
    refine matching_iff_assigns.mpr ⟨[keyOf twoSecret, keyOf oneSecret], ?_, ?_⟩
    · have htwo : zeroDigest.accepts (signedBy twoSecret) (keyOf twoSecret) = true := by
        decide +kernel
      have hone : zeroDigest.accepts (signedBy oneSecret) (keyOf oneSecret) = true := by
        decide +kernel
      exact .cons (accepts_eq_true_iff.mp htwo) (.cons (accepts_eq_true_iff.mp hone) .nil)
    · exact ⟨[keyOf oneSecret, keyOf twoSecret], .swap _ _ _, .cons_cons _ (.cons _ (.refl _))⟩
  have hthree : Number.decode false Number.operandSize [3] =
      .ok ([keyOf oneSecret, [5], keyOf twoSecret].length : Int) := rfl
  have htwo : Number.decode false Number.operandSize [2] =
      .ok ([signedBy twoSecret, signedBy oneSecret].length : Int) := rfl
  obtain ⟨result, hrun, _, hexact⟩ := checkMultiSig_decides_matching zeroDigest [] [] [] [] hthree
    (by simp) htwo (by simp)
  obtain ⟨hresult, hperm⟩ := hexact hapart
  obtain rfl := hresult hmatching
  exact ⟨hrun, hperm _ _ _ (.swap _ _ _) (.refl _)⟩

end Context

end BitcoinSpend
