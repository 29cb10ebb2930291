import Spox.Lib.Sha256
import Spox.Webapp.ReclaimScript

/-!
# Webapp — the derivation of a deposit address

`computeTaprootDerivation` of `bitcoin.ts`, which shows how the two scripts of
a deposit go into its address: a hash for each of them, a hash of the two in
order, and the tweak of the internal key. The tweak does not depend on the order
of the scripts, and it gives them away up to their order, unless two of the byte
strings that are hashed collide.
-/

namespace Spox.Webapp

open Spox.Lib Spox.Lib.Script

/-- What is used of the libraries: SHA-256, `hex.encode` and `hex.decode`, and
the points of the curve. A tweak may be out of range. -/
structure TaprootLibrary (Point : Type) where
  sha256 : List UInt8 → List UInt8
  hexEncode : List UInt8 → Text
  hexDecode : Text → Option (List UInt8)
  fromHex : Text → Option Point
  multiplyBase : Nat → Option Point
  add : Point → Point → Point
  x : Point → Nat
  y : Point → Nat
  toHex : Point → Text
  length_sha256 : ∀ data, (sha256 data).length = 32
  hexEncode_eq : ∀ bytes, hexEncode bytes = bytes.flatMap fun byte => hexDigits 2 byte.toNat

/-- `TaprootDerivation`. -/
structure TaprootDerivation where
  depositLeafHash : Text
  reclaimLeafHash : Text
  branchHash : Text
  internalKey : Text
  tweak : Text
  tweakDecimal : Text
  liftedKeyX : Text
  liftedKeyY : Text
  tweakedKey : Text
  tweakedKeyX : Text
  tweakedKeyY : Text

/-! ## Hashes -/

/-- `NUMS_X_COORDINATE`. -/
def numsXCoordinate : List UInt8 :=
  [0x50, 0x92, 0x9b, 0x74, 0xc1, 0xa0, 0x49, 0x54, 0xb7, 0x8b, 0x4b, 0x60, 0x35, 0xe9, 0x7a, 0x5e,
    0x07, 0x8a, 0x5a, 0x0f, 0x28, 0xec, 0x96, 0xd5, 0x47, 0xbf, 0xee, 0x9a, 0xce, 0x80, 0x3a, 0xc0]

/-- `new TextEncoder().encode`. -/
def textEncode (text : Text) : List UInt8 := (String.ofList text).toUTF8.toList

/-- `compactSize`. -/
def compactSize (n : Nat) : Option (List UInt8) :=
  if n < 253 then some [UInt8.ofNat n]
  else if n ≤ 0xffff then some [0xfd, UInt8.ofNat (n &&& 0xff), UInt8.ofNat (n >>> 8 &&& 0xff)]
  else none

/-- The loop of `tapBranchHash`: whether the first hash stays the first. -/
def inOrder : List UInt8 → List UInt8 → Bool
  | x :: a, y :: b => if x < y then true else if y < x then false else inOrder a b
  | _, _ => true

/-- What `tapBranchHash` hashes. -/
def branchData (a b : List UInt8) : List UInt8 := if inOrder a b then a ++ b else b ++ a

/-- What `tapLeafHash` hashes. -/
def leafData (script : List UInt8) (leafVersion : UInt8) : Option (List UInt8) :=
  (compactSize script.length).map fun cs => leafVersion :: (cs ++ script)

/-- `bytesToBigInt`. -/
def bytesToBigInt (bytes : List UInt8) : Nat :=
  bytes.foldl (fun r b => r <<< 8 ||| b.toNat) 0

section

variable {Point : Type} (library : TaprootLibrary Point)

/-- What `taggedHash` hashes. -/
def taggedData (tag : Text) (data : List UInt8) : List UInt8 :=
  library.sha256 (textEncode tag) ++ library.sha256 (textEncode tag) ++ data

/-- `taggedHash`. -/
def taggedHash (tag : Text) (data : List UInt8) : List UInt8 :=
  library.sha256 (taggedData library tag data)

/-- `tapLeafHash`. -/
def tapLeafHash (script : List UInt8) : Option (List UInt8) :=
  (leafData script 0xc0).map (taggedHash library "TapLeaf".toList)

/-- `tapBranchHash`. -/
def tapBranchHash (a b : List UInt8) : List UInt8 :=
  taggedHash library "TapBranch".toList (branchData a b)

/-- `computeTaprootDerivation`. -/
def computeTaprootDerivation (depositScript reclaimScript : List UInt8) :
    Option TaprootDerivation := do
  let depositLeaf ← tapLeafHash library depositScript
  let reclaimLeaf ← tapLeafHash library reclaimScript
  let branch := tapBranchHash library depositLeaf reclaimLeaf
  let internalKey := numsXCoordinate
  let tweak := taggedHash library "TapTweak".toList (internalKey ++ branch)
  let p ← library.fromHex ("02".toList ++ library.hexEncode internalKey)
  let tweakScalar := bytesToBigInt tweak
  let t ← library.multiplyBase tweakScalar
  let q := library.add p t
  let tweakedKey := (← library.hexDecode (library.toHex q)).drop 1
  some
    { depositLeafHash := library.hexEncode depositLeaf
      reclaimLeafHash := library.hexEncode reclaimLeaf
      branchHash := library.hexEncode branch
      internalKey := library.hexEncode internalKey
      tweak := library.hexEncode tweak
      tweakDecimal := Nat.toDigits 10 tweakScalar
      liftedKeyX := Nat.toDigits 10 (library.x p)
      liftedKeyY := Nat.toDigits 10 (library.y p)
      tweakedKey := library.hexEncode tweakedKey
      tweakedKeyX := Nat.toDigits 10 (library.x q)
      tweakedKeyY := Nat.toDigits 10 (library.y q) }

end

/-! ## What is shown -/

/-- `[a, b].sort()`, of the two leaf hashes. -/
def sortPair (a b : Text) : Text × Text := if b < a then (b, a) else (a, b)

/-- The size that is shown in front of a script. -/
def sizeLabel (n : Nat) : Text := padStart (Nat.toDigits 16 n) 2 '0'

/-- The derivation with the scripts the other way round. -/
def TaprootDerivation.swap (d : TaprootDerivation) : TaprootDerivation :=
  { d with depositLeafHash := d.reclaimLeafHash, reclaimLeafHash := d.depositLeafHash }

/-! ## What is hashed -/

section

variable {Point : Type} {library : TaprootLibrary Point} {tag : Text}
  {a b a' b' data data' script script' depositScript reclaimScript : List UInt8}
  {d d' : TaprootDerivation}

/-- The length in front of a script tells where it starts. -/
theorem leafData_inj (h : leafData script 0xc0 = some data)
    (h' : leafData script' 0xc0 = some data) : script = script' := by
  unfold leafData compactSize at h h'
  -- a length of one byte is not the mark of a longer one
  have hmark : ∀ {n : Nat}, n < 253 → (UInt8.ofNat n) ≠ 0xfd := by
    intro n hn heq
    have hnat := congrArg UInt8.toNat heq
    rw [UInt8.toNat_ofNat_of_lt' (show n < 256 by omega)] at hnat
    exact absurd hnat (Nat.ne_of_lt hn)
  split at h
  · next hshort =>
      cases h
      split at h'
      · have heq := (List.cons.inj (Option.some.inj h')).2
        exact (List.cons.inj heq).2.symm
      · split at h'
        · have heq := (List.cons.inj (Option.some.inj h')).2
          exact absurd (List.cons.inj heq).1.symm (hmark hshort)
        · cases h'
  · split at h
    · cases h
      split at h'
      · next hshort =>
          have heq := (List.cons.inj (Option.some.inj h')).2
          exact absurd (List.cons.inj heq).1 (hmark hshort)
      · split at h'
        · have heq := (List.cons.inj (Option.some.inj h')).2
          exact (List.append_inj heq rfl).2.symm
        · cases h'
    · cases h

theorem inOrder_swap (hlength : a.length = b.length) (h : inOrder a b = inOrder b a) : a = b := by
  induction a generalizing b with
  | nil => exact (List.length_eq_zero_iff.mp hlength.symm).symm
  | cons x a ih =>
      cases b with
      | nil => cases hlength
      | cons y b =>
          unfold inOrder at h
          rcases Nat.lt_trichotomy x.toNat y.toNat with hlt | heq | hgt
          · have hnot : ¬y < x := UInt8.lt_asymm (UInt8.lt_iff_toNat_lt.mpr hlt)
            rw [if_pos (UInt8.lt_iff_toNat_lt.mpr hlt), if_neg hnot,
              if_pos (UInt8.lt_iff_toNat_lt.mpr hlt)] at h
            cases h
          · cases UInt8.toNat_inj.mp heq
            rw [if_neg (UInt8.lt_irrefl x), if_neg (UInt8.lt_irrefl x),
              if_neg (UInt8.lt_irrefl x), if_neg (UInt8.lt_irrefl x)] at h
            rw [ih (Nat.succ.inj hlength) h]
          · have hnot : ¬x < y := UInt8.lt_asymm (UInt8.lt_iff_toNat_lt.mpr hgt)
            rw [if_neg hnot, if_pos (UInt8.lt_iff_toNat_lt.mpr hgt),
              if_pos (UInt8.lt_iff_toNat_lt.mpr hgt)] at h
            cases h

/-- The order of the two does not matter. -/
theorem branchData_comm (hlength : a.length = b.length) : branchData a b = branchData b a := by
  unfold branchData
  cases hab : inOrder a b with
  | true =>
      cases hba : inOrder b a with
      | true =>
          rw [inOrder_swap hlength (hab.trans hba.symm)]
      | false => rfl
  | false =>
      cases hba : inOrder b a with
      | true => rfl
      | false =>
          rw [inOrder_swap hlength (hab.trans hba.symm)]

theorem branchData_cases (a b : List UInt8) :
    branchData a b = a ++ b ∨ branchData a b = b ++ a := by
  unfold branchData
  split
  · exact .inl rfl
  · exact .inr rfl

/-- They are given away up to their order. -/
theorem branchData_inj (hb : b.length = a.length) (ha' : a'.length = a.length)
    (hb' : b'.length = a.length) (h : branchData a b = branchData a' b') :
    a = a' ∧ b = b' ∨ a = b' ∧ b = a' := by
  rcases branchData_cases a b with hdata | hdata
  · rcases branchData_cases a' b' with hdata' | hdata'
    · exact .inl (List.append_inj (hdata.symm.trans (h.trans hdata')) ha'.symm)
    · exact .inr (List.append_inj (hdata.symm.trans (h.trans hdata')) hb'.symm)
  · rcases branchData_cases a' b' with hdata' | hdata'
    · obtain ⟨hfirst, hsecond⟩ :=
        List.append_inj (hdata.symm.trans (h.trans hdata')) (hb.trans ha'.symm)
      exact .inr ⟨hsecond, hfirst⟩
    · obtain ⟨hfirst, hsecond⟩ :=
        List.append_inj (hdata.symm.trans (h.trans hdata')) (hb.trans hb'.symm)
      exact .inl ⟨hsecond, hfirst⟩

theorem hexEncode_injective (library : TaprootLibrary Point) :
    Function.Injective library.hexEncode := by
  intro a b h
  refine hexBytes_injective ?_
  rw [hexBytes, hexBytes, ← library.hexEncode_eq, ← library.hexEncode_eq, h]

theorem hexDigits_two_append (n : Nat) (rest : Text) :
    hexDigits 2 n ++ rest = hexDigit (n / 16 % 16) :: hexDigit (n % 16) :: rest := rfl

/-- The digits of a byte are in the order of the bytes. -/
theorem hexDigits_lt {x y : UInt8} (h : x < y) (rest rest' : Text) :
    hexDigits 2 x.toNat ++ rest < hexDigits 2 y.toNat ++ rest' := by
  have hdigit : ∀ m n : Fin 16, m < n → hexDigit m < hexDigit n := by decide
  have hlt : x.toNat < y.toNat := UInt8.lt_iff_toNat_lt.mp h
  have hbound := y.toNat_lt
  rw [hexDigits_two_append, hexDigits_two_append, List.cons_lt_cons_iff, List.cons_lt_cons_iff]
  rcases Nat.lt_or_ge (x.toNat / 16) (y.toNat / 16) with hhigh | hsame
  · exact .inl (hdigit ⟨x.toNat / 16 % 16, by omega⟩ ⟨y.toNat / 16 % 16, by omega⟩
      (Fin.mk_lt_mk.mpr (by omega)))
  · refine .inr ⟨congrArg hexDigit (by omega), .inl ?_⟩
    exact hdigit ⟨x.toNat % 16, by omega⟩ ⟨y.toNat % 16, by omega⟩ (Fin.mk_lt_mk.mpr (by omega))

/-- Sorting the texts is ordering the hashes. -/
theorem hexEncode_lt_iff (hlength : a.length = b.length) :
    library.hexEncode b < library.hexEncode a ↔ inOrder a b = false := by
  simp only [library.hexEncode_eq]
  induction a generalizing b with
  | nil =>
      cases List.length_eq_zero_iff.mp hlength.symm
      exact iff_of_false (List.lt_irrefl _) (by decide)
  | cons x a ih =>
      cases b with
      | nil => cases hlength
      | cons y b =>
          rw [List.flatMap_cons, List.flatMap_cons, inOrder]
          rcases Nat.lt_trichotomy x.toNat y.toNat with hlt | heq | hgt
          · have hxy : x < y := UInt8.lt_iff_toNat_lt.mpr hlt
            rw [if_pos hxy]
            exact iff_of_false (List.lt_asymm (hexDigits_lt hxy _ _)) (by decide)
          · cases UInt8.toNat_inj.mp heq
            rw [if_neg (UInt8.lt_irrefl x), if_neg (UInt8.lt_irrefl x),
              ← ih (Nat.succ.inj hlength), hexDigits_two_append, hexDigits_two_append,
              List.cons_lt_cons_self, List.cons_lt_cons_self]
          · have hyx : y < x := UInt8.lt_iff_toNat_lt.mpr hgt
            rw [if_neg (UInt8.lt_asymm hyx), if_pos hyx]
            exact iff_of_true (hexDigits_lt hyx _ _) rfl

/-- The leaves are shown in the order they are hashed in. -/
theorem branchData_sortPair (library : TaprootLibrary Point) (hlength : a.length = b.length) :
    ∃ first second, branchData a b = first ++ second ∧
      sortPair (library.hexEncode a) (library.hexEncode b) =
        (library.hexEncode first, library.hexEncode second) := by
  have hsort : library.hexEncode b < library.hexEncode a ↔ inOrder a b = false :=
    hexEncode_lt_iff hlength
  cases horder : inOrder a b with
  | true =>
      rw [horder] at hsort
      refine ⟨a, b, if_pos horder, if_neg fun hlt => ?_⟩
      cases hsort.mp hlt
  | false =>
      refine ⟨b, a, if_neg ?_, if_pos (hsort.mpr horder)⟩
      rw [horder]
      exact Bool.false_ne_true

/-- The size that is shown is the one that is hashed for short scripts only. -/
theorem sizeLabel_eq_iff {n : Nat} {size : List UInt8} (h : compactSize n = some size) :
    sizeLabel n = library.hexEncode size ↔ n < 253 := by
  rw [library.hexEncode_eq]
  rw [compactSize] at h
  split at h
  · next hshort =>
      cases h
      have hall : ∀ k : Fin 253, sizeLabel k = hexDigits 2 k := by decide +kernel
      have hbyte : (UInt8.ofNat n).toNat = n := UInt8.toNat_ofNat_of_lt' (show n < 256 by omega)
      rw [List.flatMap_singleton, hbyte]
      exact iff_of_true (hall ⟨n, hshort⟩) hshort
  · next hlong =>
      split at h
      · next hbound =>
          cases h
          -- four digits are shown at most, of the six that are hashed
          have hdigits : (Nat.toDigits 16 n).length ≤ 4 :=
            (Nat.length_toDigits_le_iff (by decide) (by decide)).mpr (by omega)
          refine iff_of_false (fun heq => ?_) hlong
          have hlength := congrArg List.length heq
          simp only [List.flatMap_cons, List.flatMap_nil, List.length_append, length_hexDigits,
            sizeLabel, padStart, List.length_replicate, List.length_nil] at hlength
          omega
      · cases h

/-- The hash of a leaf. -/
def leafHash (library : TaprootLibrary Point) (data : List UInt8) : List UInt8 :=
  taggedHash library "TapLeaf".toList data

/-- What the tweak is the hash of. -/
def tweakData (library : TaprootLibrary Point) (data data' : List UInt8) : List UInt8 :=
  numsXCoordinate ++ tapBranchHash library (leafHash library data) (leafHash library data')

/-- The hashes of a derivation. -/
structure Derives (library : TaprootLibrary Point) (depositScript reclaimScript : List UInt8)
    (d : TaprootDerivation) (data data' : List UInt8) : Prop where
  deposit : leafData depositScript 0xc0 = some data
  reclaim : leafData reclaimScript 0xc0 = some data'
  depositLeafHash : d.depositLeafHash = library.hexEncode (leafHash library data)
  reclaimLeafHash : d.reclaimLeafHash = library.hexEncode (leafHash library data')
  branchHash : d.branchHash = library.hexEncode
    (tapBranchHash library (leafHash library data) (leafHash library data'))
  tweak : d.tweak = library.hexEncode
    (taggedHash library "TapTweak".toList (tweakData library data data'))

theorem derives_of_eq_some
    (h : computeTaprootDerivation library depositScript reclaimScript = some d) :
    ∃ data data', Derives library depositScript reclaimScript d data data' := by
  simp only [computeTaprootDerivation, Option.bind_eq_bind, Option.bind_eq_some_iff] at h
  obtain ⟨depositLeaf, hdeposit, reclaimLeaf, hreclaim, p, -, t, -, key, -, heq⟩ := h
  obtain ⟨data, hdata, rfl⟩ := Option.map_eq_some_iff.mp hdeposit
  obtain ⟨data', hdata', rfl⟩ := Option.map_eq_some_iff.mp hreclaim
  cases heq
  exact ⟨data, data', hdata, hdata', rfl, rfl, rfl, rfl⟩

theorem length_leafHash (library : TaprootLibrary Point) (data : List UInt8) :
    (leafHash library data).length = 32 := library.length_sha256 _

theorem tapBranchHash_comm (library : TaprootLibrary Point) (hlength : a.length = b.length) :
    tapBranchHash library a b = tapBranchHash library b a := by
  rw [tapBranchHash, tapBranchHash, branchData_comm hlength]

/-- The order of the scripts is in the names of the leaves only. -/
theorem computeTaprootDerivation_swap (library : TaprootLibrary Point)
    (depositScript reclaimScript : List UInt8) :
    computeTaprootDerivation library reclaimScript depositScript =
      (computeTaprootDerivation library depositScript reclaimScript).map
        TaprootDerivation.swap := by
  rw [computeTaprootDerivation, computeTaprootDerivation]
  cases hdeposit : tapLeafHash library depositScript with
  | none =>
      cases tapLeafHash library reclaimScript with
      | none => rfl
      | some reclaimLeaf => rfl
  | some depositLeaf =>
      cases hreclaim : tapLeafHash library reclaimScript with
      | none => rfl
      | some reclaimLeaf =>
          obtain ⟨data, -, rfl⟩ := Option.map_eq_some_iff.mp hdeposit
          obtain ⟨data', -, rfl⟩ := Option.map_eq_some_iff.mp hreclaim
          have hcomm := tapBranchHash_comm library
            ((length_leafHash library data).trans (length_leafHash library data').symm)
          simp only [Option.bind_eq_bind, Option.bind_some, leafHash] at hcomm ⊢
          rw [hcomm]
          generalize taggedHash library "TapTweak".toList _ = tweak
          cases library.fromHex ("02".toList ++ library.hexEncode numsXCoordinate) with
          | none => rfl
          | some p =>
              simp only [Option.bind_some]
              cases library.multiplyBase (bytesToBigInt tweak) with
              | none => rfl
              | some t =>
                  simp only [Option.bind_some]
                  cases library.hexDecode (library.toHex (library.add p t)) with
                  | none => rfl
                  | some key => rfl

/-- What is hashed for a derivation, with the tags. -/
def messages (library : TaprootLibrary Point) (data data' : List UInt8) :
    List (Text × List UInt8) :=
  [("TapLeaf".toList, data), ("TapLeaf".toList, data'),
    ("TapBranch".toList, branchData (leafHash library data) (leafHash library data')),
    ("TapTweak".toList, tweakData library data data')]

/-- What is hashed for two scripts. -/
def hashed (library : TaprootLibrary Point) (depositScript reclaimScript : List UInt8) :
    List (Text × List UInt8) :=
  match leafData depositScript 0xc0, leafData reclaimScript 0xc0 with
  | some data, some data' => messages library data data'
  | _, _ => []

theorem Derives.hashed_eq (h : Derives library depositScript reclaimScript d data data') :
    hashed library depositScript reclaimScript = messages library data data' := by
  rw [hashed, h.deposit, h.reclaim]

/-- Two of the byte strings that are hashed for two derivations collide. -/
def HashesCollide (library : TaprootLibrary Point) (messages messages' : List (Text × List UInt8)) :
    Prop :=
  ∃ m ∈ messages, ∃ m' ∈ messages',
    taggedData library m.1 m.2 ≠ taggedData library m'.1 m'.2 ∧
      library.sha256 (taggedData library m.1 m.2) = library.sha256 (taggedData library m'.1 m'.2)

/-- The tweak tells the scripts up to their order, or two hashes collide. -/
theorem Derives.commits {e e' : List UInt8}
    (h : Derives library depositScript reclaimScript d data data')
    (h' : Derives library script script' d' e e') (htweak : d'.tweak = d.tweak)
    (hfree : ¬HashesCollide library (hashed library depositScript reclaimScript)
      (hashed library script script')) :
    script = depositScript ∧ script' = reclaimScript ∨
      script = reclaimScript ∧ script' = depositScript := by
  rw [h.hashed_eq, h'.hashed_eq] at hfree
  have hdata : ∀ tag x x', (tag, x) ∈ messages library data data' →
      (tag, x') ∈ messages library e e' →
      taggedHash library tag x = taggedHash library tag x' → x = x' := by
    intro tag x x' hx hx' heq
    by_contra hne
    exact hfree ⟨_, hx, _, hx', fun hsame => hne (List.append_cancel_left hsame), heq⟩
  -- from the tweak through the branch to the leaves
  have htweaks := hexEncode_injective library (h.tweak.symm.trans (htweak.symm.trans h'.tweak))
  have hkeyed : tweakData library data data' = tweakData library e e' :=
    hdata _ _ _ (by simp [messages]) (by simp [messages]) htweaks
  have hleaves := hdata _ _ _ (by simp [messages]) (by simp [messages])
    (List.append_cancel_left hkeyed)
  have hlength := fun x y => (length_leafHash library x).trans (length_leafHash library y).symm
  rcases branchData_inj (hlength _ _) (hlength _ _) (hlength _ _) hleaves with
    ⟨hfirst, hsecond⟩ | ⟨hfirst, hsecond⟩
  · cases hdata _ _ _ (by simp [messages]) (by simp [messages]) hfirst
    cases hdata _ _ _ (by simp [messages]) (by simp [messages]) hsecond
    exact .inl ⟨leafData_inj h'.deposit h.deposit, leafData_inj h'.reclaim h.reclaim⟩
  · cases hdata _ _ _ (by simp [messages]) (by simp [messages]) hfirst
    cases hdata _ _ _ (by simp [messages]) (by simp [messages]) hsecond
    exact .inr ⟨leafData_inj h'.deposit h.reclaim, leafData_inj h'.reclaim h.deposit⟩

end

/-- **The tweak commits to both scripts.** It does not depend on which of them is
the deposit script, and other scripts have another tweak, unless two of the byte
strings that are hashed for them collide. The two leaves are shown in the order
they are hashed in, and the size of a script as it is hashed if it is below
253. -/
theorem derivation_commits {Point : Type} (library : TaprootLibrary Point)
    (depositScript reclaimScript : List UInt8) :
    computeTaprootDerivation library reclaimScript depositScript =
        (computeTaprootDerivation library depositScript reclaimScript).map
          TaprootDerivation.swap ∧
      (∀ size, compactSize reclaimScript.length = some size →
        (sizeLabel reclaimScript.length = library.hexEncode size ↔
          reclaimScript.length < 253)) ∧
      ∀ d, computeTaprootDerivation library depositScript reclaimScript = some d →
        (∃ first second,
          d.branchHash =
              library.hexEncode (taggedHash library "TapBranch".toList (first ++ second)) ∧
            sortPair d.depositLeafHash d.reclaimLeafHash =
              (library.hexEncode first, library.hexEncode second)) ∧
        ∀ script script' d', computeTaprootDerivation library script script' = some d' →
          ¬HashesCollide library (hashed library depositScript reclaimScript)
            (hashed library script script') →
          (d'.tweak = d.tweak ↔ script = depositScript ∧ script' = reclaimScript ∨
            script = reclaimScript ∧ script' = depositScript) := by
  have hswap := computeTaprootDerivation_swap library depositScript reclaimScript
  refine ⟨hswap, fun size hsize => sizeLabel_eq_iff hsize, fun d hd => ?_⟩
  obtain ⟨data, data', hderives⟩ := derives_of_eq_some hd
  constructor
  · obtain ⟨first, second, hbranch, hsort⟩ := branchData_sortPair library
      ((length_leafHash library data).trans (length_leafHash library data').symm)
    refine ⟨first, second, ?_, ?_⟩
    · rw [hderives.branchHash, tapBranchHash, hbranch]
    · rw [hderives.depositLeafHash, hderives.reclaimLeafHash, hsort]
  · intro script script' d' hd' hfree
    obtain ⟨e, e', hderives'⟩ := derives_of_eq_some hd'
    constructor
    · intro htweak
      exact hderives.commits hderives' htweak hfree
    · rintro (⟨rfl, rfl⟩ | ⟨rfl, rfl⟩)
      · rw [hd] at hd'
        cases hd'
        rfl
      · rw [hswap, hd] at hd'
        cases hd'
        rfl

/-! ## The libraries

SHA-256, hexadecimal text and the curve secp256k1, as the webapp uses them. -/

namespace Secp256k1

/-- The prime of the field. -/
def prime : Nat := 0xfffffffffffffffffffffffffffffffffffffffffffffffffffffffefffffc2f

/-- How many points there are. -/
def order : Nat := 0xfffffffffffffffffffffffffffffffebaaedce6af48a03bbfd25e8cd0364141

instance : NeZero prime := ⟨by decide⟩

/-- A coordinate. -/
abbrev Coordinate : Type := Fin prime

/-- A power whose exponent has so many bits. -/
def power : Nat → Coordinate → Nat → Coordinate
  | 0, _, _ => 1
  | bits + 1, a, exponent =>
      let rest := power bits (a * a) (exponent / 2)
      if exponent % 2 = 1 then a * rest else rest

def inverse (a : Coordinate) : Coordinate := power 256 a (prime - 2)

/-- The point `(x / z², y / z³)`; the point at infinity has a `z` of zero. -/
structure Point where
  x : Coordinate
  y : Coordinate
  z : Coordinate

namespace Point

def affineX (p : Point) : Coordinate := p.x * inverse (p.z * p.z)

def affineY (p : Point) : Coordinate := p.y * inverse (p.z * p.z * p.z)

def double (p : Point) : Point :=
  let s := 4 * p.x * p.y * p.y
  let m := 3 * p.x * p.x
  let x := m * m - 2 * s
  ⟨x, m * (s - x) - 8 * p.y * p.y * p.y * p.y, 2 * p.y * p.z⟩

def add (p q : Point) : Point :=
  if p.z = 0 then q
  else if q.z = 0 then p
  else
    let u := p.x * q.z * q.z
    let s := p.y * q.z * q.z * q.z
    let h := q.x * p.z * p.z - u
    let r := q.y * p.z * p.z * p.z - s
    if h = 0 ∧ r = 0 then p.double
    else
      let x := r * r - h * h * h - 2 * u * h * h
      ⟨x, r * (u * h * h - x) - s * h * h * h, h * p.z * q.z⟩

/-- A multiple whose factor has so many bits. -/
def multiple : Nat → Nat → Point → Point
  | 0, _, _ => ⟨1, 1, 0⟩
  | bits + 1, factor, p =>
      let rest := multiple bits (factor / 2) p.double
      if factor % 2 = 1 then p.add rest else rest

/-- The generator. -/
def base : Point where
  x := 0x79be667ef9dcbbac55a06295ce870b07029bfcdb2dce28d959f2815b16f81798
  y := 0x483ada7726a3c4655da4fbfc0e1108a8fd17b448a68554199c47d08ffb10d4b8
  z := 1

/-- The point of an `x` whose `y` is odd or even; not every `x` has one. -/
def lift (odd : Bool) (x : Nat) : Option Point :=
  let x := Fin.ofNat prime x
  let y := power 256 (x * x * x + 7) ((prime + 1) / 4)
  if y * y = x * x * x + 7 then some ⟨x, if (y.val % 2 = 1) = odd then y else -y, 1⟩ else none

end Point

end Secp256k1

open Secp256k1 in
/-- The libraries. -/
def taprootLibrary : TaprootLibrary Point where
  sha256 := sha256
  hexEncode := Sample.hexText
  hexDecode := Sample.hexDecode
  fromHex
    | '0' :: '2' :: digits => (parseHex digits 0).bind (Point.lift false)
    | '0' :: '3' :: digits => (parseHex digits 0).bind (Point.lift true)
    | _ => none
  multiplyBase factor :=
    if 0 < factor ∧ factor < order then some (Point.base.multiple 256 factor) else none
  add := .add
  x p := p.affineX.val
  y p := p.affineY.val
  toHex p :=
    (if p.affineY.val % 2 = 1 then ['0', '3'] else ['0', '2']) ++ hexDigits 64 p.affineX.val
  length_sha256 := length_sha256
  hexEncode_eq _ := rfl

namespace Sample

/-- The deposit script of the known address. -/
def depositScript : List UInt8 :=
  [ScriptItem.data (setBigUint64 5000 ++ consensus recipient), .drop, .data aggregateKey,
    .checkSig].flatMap ScriptItem.bytes

/-- A reclaim script with its spending condition. -/
def reclaimScript (blocks : Nat) : List UInt8 := lockScript blocks [0x75, 0x51]

/-- The key of the known address. -/
def tweakedKey : Text := "f2df9dde18743590ff6bd81ffb850d850d1f30d718d5ee80632bd1ed0d1edc74".toList

/-- With a lock time of 100 the scripts make the known address, and there are
no collisions with those of a lock time of 101. -/
theorem derivations :
    (computeTaprootDerivation taprootLibrary depositScript (reclaimScript 100)).map
        (·.tweakedKey) = some tweakedKey ∧
      (computeTaprootDerivation taprootLibrary depositScript (reclaimScript 101)).isSome = true ∧
      ¬HashesCollide taprootLibrary (hashed taprootLibrary depositScript (reclaimScript 100))
        (hashed taprootLibrary depositScript (reclaimScript 101)) := by
  unfold HashesCollide
  decide +kernel

end Sample

/-- The known address does not commit to a lock time of 101. -/
theorem derivation_commits_known_address :
    ∃ d d', computeTaprootDerivation taprootLibrary Sample.depositScript
        (Sample.reclaimScript 100) = some d ∧ d.tweakedKey = Sample.tweakedKey ∧
      computeTaprootDerivation taprootLibrary Sample.depositScript
        (Sample.reclaimScript 101) = some d' ∧ d'.tweak ≠ d.tweak := by
  obtain ⟨hmade, hsome, hfree⟩ := Sample.derivations
  obtain ⟨d, hd, hkey⟩ := Option.map_eq_some_iff.mp hmade
  obtain ⟨d', hd'⟩ := Option.isSome_iff_exists.mp hsome
  refine ⟨d, d', hd, hkey, hd', fun htweak => ?_⟩
  obtain ⟨-, -, hderived⟩ :=
    derivation_commits taprootLibrary Sample.depositScript (Sample.reclaimScript 100)
  have hsame := ((hderived d hd).2 _ _ d' hd' hfree).mp htweak
  revert hsame
  decide +kernel

end Spox.Webapp
