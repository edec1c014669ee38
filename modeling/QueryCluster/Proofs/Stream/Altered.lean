import QueryCluster.Proofs.Stream.Truncation

/-!
# Frames with one byte changed

The checksum covers the payload and nothing else. A frame of which one byte was changed is refused, or it is
read with the payload that was written, unless two payloads of one digest were found. It may be read as a
frame of another kind, for the kind is one byte of the header.
-/
namespace QueryCluster

open Codec (lengthLimit)

namespace Bytes

theorem ofNatLE_toNatLE {bs : Bytes} {width : Nat} (h : bs.length = width) :
    ofNatLE width (toNatLE bs) = bs := by
  subst h
  induction bs with
  | nil => rfl
  | cons b bs ih =>
    have hlow : UInt8.ofNat (b.toNat + 256 * toNatLE bs) = b := by
      apply UInt8.toNat_inj.mp
      rw [UInt8.toNat_ofNat']
      have := b.toNat_lt
      omega
    have hhigh : (b.toNat + 256 * toNatLE bs) / 256 = toNatLE bs := by
      have := b.toNat_lt
      omega
    rw [List.length_cons, toNatLE, ofNatLE, hlow, hhigh, ih]

theorem ofNatLE_inj {width m n : Nat} (hm : m < capacity width) (hn : n < capacity width)
    (h : ofNatLE width m = ofNatLE width n) : m = n := by
  have h := congrArg toNatLE h
  rwa [toNatLE_ofNatLE, toNatLE_ofNatLE, Nat.mod_eq_of_lt hm, Nat.mod_eq_of_lt hn] at h

theorem drop_eq_cut (bs : Bytes) (n width : Nat) :
    bs.drop n = (bs.drop n).take width ++ bs.drop (n + width) := by
  rw [← List.drop_drop, List.take_append_drop]

theorem cut_set (bs : Bytes) (b : UInt8) (n width : Nat) {i : Nat} (h : i < n ∨ n + width ≤ i) :
    ((bs.set i b).drop n).take width = (bs.drop n).take width := by
  refine List.ext_getElem? fun k => ?_
  by_cases hk : k < width
  · have hne : i ≠ n + k := by omega
    rw [List.getElem?_take_of_lt hk, List.getElem?_take_of_lt hk, List.getElem?_drop, List.getElem?_drop,
      List.getElem?_set_ne hne]
  · rw [List.getElem?_take_eq_none (Nat.not_lt.mp hk), List.getElem?_take_eq_none (Nat.not_lt.mp hk)]

end Bytes

namespace FrameKind

theorem code_of_ofCode? {code : Nat} {k : FrameKind} (h : ofCode? code = some k) : code = k.code := by
  unfold ofCode? at h
  split at h <;> cases h <;> rfl

theorem byte_inj {k l : FrameKind} (h : UInt8.ofNat k.code = UInt8.ofNat l.code) : k = l := by
  cases k <;> cases l <;> first | rfl | cases h

end FrameKind

theorem Source.take_ofBytes {n : Nat} {bs got : Bytes} {rest : Source}
    (h : take n (ofBytes bs) = .full got rest) :
    got.length = n ∧ ∃ back, bs = got ++ back ∧ rest = ofBytes back := by
  by_cases hn : n ≤ bs.length
  · have htake := take_append (bs.take n) (bs.drop n)
    rw [List.take_append_drop, List.length_take_of_le hn, h] at htake
    cases htake
    exact ⟨List.length_take_of_le hn, _, (List.take_append_drop n bs).symm, rfl⟩
  · rw [take_short (Nat.not_le.mp hn)] at h
    cases h

namespace Frame

/-- A header whose reserved byte may be any. -/
def headerWith (f : Frame) (reserved : UInt8) : Bytes :=
  Bytes.ofNatLE 4 magic ++ Bytes.ofNatLE 2 version ++ [UInt8.ofNat f.kind.code, reserved] ++
    Bytes.ofNatLE 8 f.payload.length ++ Blake3.digest f.payload

/-- The payload that a header in front announces, if it is there. -/
def announced? (bs : Bytes) : Option Bytes :=
  let length := Bytes.toNatLE ((bs.drop 8).take 8)
  if length ≤ (bs.drop headerLength).length then some ((bs.drop headerLength).take length) else none

section Fields

variable (f : Frame) (reserved : UInt8) (tail : Bytes)

theorem length_headerWith : (f.headerWith reserved).length = headerLength := by
  simp [headerWith, headerLength, Blake3.length_digest]

theorem headerWith_kind : (f.headerWith reserved ++ tail)[6]? = some (UInt8.ofNat f.kind.code) := by
  simp [headerWith, List.getElem?_append]

theorem headerWith_length :
    ((f.headerWith reserved ++ tail).drop 8).take 8 = Bytes.ofNatLE 8 f.payload.length := by
  rw [headerWith, List.append_assoc, List.append_assoc]
  exact cut _ _ _ (by simp) (Bytes.length_ofNatLE 8 _)

theorem headerWith_checksum :
    ((f.headerWith reserved ++ tail).drop 16).take 32 = Blake3.digest f.payload := by
  rw [headerWith, List.append_assoc]
  exact cut _ _ _ (by simp) (Blake3.length_digest _)

theorem headerWith_behind : (f.headerWith reserved ++ tail).drop headerLength = tail :=
  List.drop_left' (f.length_headerWith reserved)

theorem announced?_headerWith (hsmall : f.payload.length < lengthLimit) :
    announced? (f.headerWith reserved ++ (f.payload ++ tail)) = some f.payload := by
  have hlength : Bytes.toNatLE (Bytes.ofNatLE 8 f.payload.length) = f.payload.length := by
    rw [Bytes.toNatLE_ofNatLE, Nat.mod_eq_of_lt (Codec.capacity_eight ▸ hsmall)]
  simp only [announced?, headerWith_length, headerWith_behind, hlength]
  simp

end Fields

/-- A header that is taken is made of what it is taken for. -/
theorem Header.eq_of_read {bs : Bytes} {h : Header} (hlength : bs.length = headerLength)
    (hread : Header.read bs = .ok h) : h.length ≤ maxPayload ∧ ∃ reserved,
      bs = Bytes.ofNatLE 4 magic ++ Bytes.ofNatLE 2 version ++ [UInt8.ofNat h.kind.code, reserved] ++
        Bytes.ofNatLE 8 h.length ++ h.checksum := by
  have hwidth (n width : Nat) (h : n + width ≤ headerLength) : ((bs.drop n).take width).length = width := by
    rw [List.length_take, List.length_drop]
    omega
  have hfront : (bs.take 4).length = 4 := hwidth 0 4 (by decide)
  obtain ⟨code, reserved, hpair⟩ := List.length_eq_two.mp (hwidth 6 2 (by decide))
  have hcode : (bs.drop 6).take 1 = [code] := by
    have h := congrArg (List.take 1) hpair
    rwa [List.take_take] at h
  have hfields : bs = bs.take 4 ++ (bs.drop 4).take 2 ++ [code, reserved] ++ (bs.drop 8).take 8 ++
      (bs.drop 16).take 32 := by
    have hlast : (bs.drop 16).take 32 = bs.drop 16 := List.take_of_length_le (by simp [hlength, headerLength])
    calc bs = bs.take 4 ++ bs.drop 4 := (List.take_append_drop 4 bs).symm
      _ = bs.take 4 ++ ((bs.drop 4).take 2 ++ bs.drop 6) := by rw [← Bytes.drop_eq_cut bs 4 2]
      _ = bs.take 4 ++ ((bs.drop 4).take 2 ++ ((bs.drop 6).take 2 ++ bs.drop 8)) := by
        rw [← Bytes.drop_eq_cut bs 6 2]
      _ = bs.take 4 ++ ((bs.drop 4).take 2 ++ ([code, reserved] ++ ((bs.drop 8).take 8 ++ bs.drop 16))) := by
        rw [← Bytes.drop_eq_cut bs 8 8, hpair]
      _ = _ := by rw [hlast]; simp only [List.append_assoc]
  rw [Header.read, hcode] at hread
  split at hread
  · cases hread
  rename_i hfirst
  obtain ⟨hmagic, hversion⟩ := not_or.mp hfirst
  split at hread
  · cases hread
  rename_i hfits
  split at hread
  · rename_i kind hkind
    cases hread
    refine ⟨Nat.not_lt.mp hfits, reserved, ?_⟩
    have hbyte : UInt8.ofNat kind.code = code := by
      rw [← FrameKind.code_of_ofCode? hkind]
      exact List.head_eq_of_cons_eq (@Bytes.ofNatLE_toNatLE [code] 1 rfl)
    rw [hbyte, ← not_not.mp hmagic, ← not_not.mp hversion, Bytes.ofNatLE_toNatLE hfront,
      Bytes.ofNatLE_toNatLE (hwidth 4 2 (by decide)), Bytes.ofNatLE_toNatLE (hwidth 8 8 (by decide))]
    exact hfields
  · cases hread

theorem eq_of_read {bs : Bytes} {g : Frame} {rest : Source}
    (h : read (Source.ofBytes bs) = (.ok (some g), rest)) : g.payload.length ≤ maxPayload ∧ ∃ reserved tail,
      bs = g.headerWith reserved ++ (g.payload ++ tail) ∧ rest = Source.ofBytes tail := by
  rw [read] at h
  rcases ht : Source.take headerLength (Source.ofBytes bs) with
    ⟨header, behind⟩ | ⟨_ | _, _⟩ | ⟨_, _⟩ <;> rw [ht] at h
  case full =>
    obtain ⟨hlength, back, rfl, rfl⟩ := Source.take_ofBytes ht
    rcases hread : Header.read header with fault | announced <;> simp only [hread] at h
    · cases h
    obtain ⟨hfits, reserved, rfl⟩ := Header.eq_of_read hlength hread
    rw [readPayload] at h
    rcases hp : Source.take announced.length (Source.ofBytes back) with
      ⟨payload, rest'⟩ | ⟨_, _⟩ | ⟨_, _⟩ <;> rw [hp] at h
    case full =>
      obtain ⟨hpayload, tail, rfl, rfl⟩ := Source.take_ofBytes hp
      simp only at h
      split at h <;> cases h
      rename_i hchecksum
      refine ⟨hpayload ▸ hfits, reserved, tail, ?_, rfl⟩
      simp only [headerWith, hpayload, hchecksum]
    all_goals cases h
  all_goals cases h

/-- A frame that is read where one was written, with at most one byte changed, has its payload, if no other
payload of the same digest turned up there, and is the same but for a changed kind. -/
theorem eq_of_read_altered {f g : Frame} (hsmall : f.payload.length < lengthLimit) {tail : Bytes} {i : Nat}
    {b : UInt8} (hdigest : ∀ p, announced? ((f.encode ++ tail).set i b) = some p → p ≠ f.payload →
      Blake3.digest p ≠ Blake3.digest f.payload) {rest : Source}
    (h : read (Source.ofBytes ((f.encode ++ tail).set i b)) = (.ok (some g), rest)) :
    rest = Source.ofBytes (((f.encode ++ tail).set i b).drop f.encode.length) ∧ g.payload = f.payload ∧
      (g = f ∨ i = 6 ∧ b = UInt8.ofNat g.kind.code) := by
  obtain ⟨hfits, reserved, behind, hread, rfl⟩ := eq_of_read h
  have hwritten : f.encode ++ tail = f.headerWith 0 ++ (f.payload ++ tail) := List.append_assoc ..
  rw [hread] at hdigest ⊢
  rw [hwritten] at hread
  have hlimit : g.payload.length < lengthLimit := Nat.lt_of_le_of_lt hfits (by decide)
  have hpayload : g.payload = f.payload := by
    by_cases hin : 8 ≤ i ∧ i < 16 ∨ headerLength ≤ i
    -- the checksum is as it was written, and so is what it was taken of
    · have hcut := Bytes.cut_set (f.headerWith 0 ++ (f.payload ++ tail)) b 16 32 (i := i)
        (by simp only [headerLength] at hin; omega)
      rw [hread, headerWith_checksum, headerWith_checksum] at hcut
      by_contra hne
      exact hdigest _ (announced?_headerWith g reserved behind hlimit) hne hcut
    -- the length is as it was written, and what is behind the header is
    · have hcut := Bytes.cut_set (f.headerWith 0 ++ (f.payload ++ tail)) b 8 8 (i := i)
        (by simp only [headerLength] at hin; omega)
      rw [hread, headerWith_length, headerWith_length] at hcut
      have hlength := Bytes.ofNatLE_inj (Codec.capacity_eight ▸ hlimit) (Codec.capacity_eight ▸ hsmall) hcut
      have hbehind := congrArg (List.drop headerLength) hread
      rw [List.drop_set, if_pos (by simp only [headerLength] at hin ⊢; omega), headerWith_behind,
        headerWith_behind] at hbehind
      exact ((List.append_inj hbehind hlength.symm).1).symm
  have hkind : g = f ∨ i = 6 ∧ b = UInt8.ofNat g.kind.code := by
    have hbyte := congrArg (·[6]?) hread
    simp only [headerWith_kind] at hbyte
    by_cases h6 : i = 6
    · subst h6
      rw [List.getElem?_set_self (by rw [List.length_append, length_headerWith, headerLength]; omega)] at hbyte
      exact .inr ⟨rfl, Option.some.inj hbyte⟩
    · rw [List.getElem?_set_ne h6, headerWith_kind] at hbyte
      obtain ⟨kind, payload⟩ := g
      obtain rfl := FrameKind.byte_inj (Option.some.inj hbyte)
      exact .inl (congrArg (Frame.mk f.kind) hpayload)
  have hlength : f.encode.length = (g.headerWith reserved ++ g.payload).length := by
    rw [length_encode, List.length_append, length_headerWith, hpayload]
  exact ⟨by rw [hlength, ← List.append_assoc, List.drop_left], hpayload, hkind⟩

end Frame
end QueryCluster
