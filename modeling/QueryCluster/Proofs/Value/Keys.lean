import Mathlib.Data.List.Forall2
import QueryCluster.Proofs.Codec.Basic
import QueryCluster.Value.Key

/-!
# Key bytes read back

The key bytes of a value can be read back, in front of anything, as the value in the widest form of
its kind. So the key bytes of a tuple fall apart into those of its values in one way only, whatever
its texts and byte strings hold, and two tuples share them just when they are the same value by value.
-/
namespace QueryCluster

open Codec (lengthLimit Reads Decoder decodeWord decodeFlag decodeText decodeBlob)

theorem Codec.append_inj_of_reads {α : Type} {d : Decoder α} {bs cs x y : Bytes} {a b : α}
    (ha : Reads d bs a) (hb : Reads d cs b) (h : bs ++ x = cs ++ y) : a = b ∧ x = y := by
  have hr := ha x
  rw [h, hb y] at hr
  obtain ⟨rfl, rfl⟩ := Prod.mk.inj (Option.some.inj hr)
  exact ⟨rfl, rfl⟩

namespace Value

/-- The value in the widest form of its kind. -/
def widened : Value → Value
  | int32 i => int64 i.toInt64
  | float32 x => float64 x.widen
  | v => v

/-- The same null, truth value, text or byte string, integers of one value, or floats of the same bits
in double precision. -/
def SameKey (v w : Value) : Prop := v.widened = w.widened

instance (v w : Value) : Decidable (SameKey v w) := inferInstanceAs (Decidable (v.widened = w.widened))

/-- The bytes of a text or a byte string can be counted in a 64-bit word, as all that fit a memory
can. -/
def Measured : Value → Prop
  | text s => (Bytes.ofString s).length < lengthLimit
  | bytes bs => bs.length < lengthLimit
  | _ => True

theorem keyBytes_widened (v : Value) : v.widened.keyBytes = v.keyBytes := by cases v <;> rfl

theorem SameKey.keyBytes_eq {v w : Value} (h : SameKey v w) : v.keyBytes = w.keyBytes := by
  rw [← keyBytes_widened v, ← keyBytes_widened w, show v.widened = w.widened from h]

/-- Reads one value of a key tuple. -/
def decodeKey : Decoder Value := do
  match ← decodeWord 1 with
  | 0 => return null
  | 1 => return bool (← decodeFlag)
  | 2 => return int64 (UInt64.ofNat (← decodeWord 8)).toInt64
  | 4 => return float64 ⟨UInt64.ofNat (← decodeWord 8)⟩
  | 6 => return text (← decodeText)
  | 7 => return bytes (← decodeBlob)
  | _ => failure

theorem reads_tagByte {n : Nat} (h : n < 256) : Reads (decodeWord 1) [UInt8.ofNat n] n :=
  @Codec.reads_word 1 n (by simpa [Bytes.capacity] using h)

theorem reads_int64 (i : Int64) :
    Reads (decodeWord 8 >>= fun n => pure (int64 (UInt64.ofNat n).toInt64))
      (Bytes.ofNatLE 8 i.toUInt64.toNat) (int64 i) := by
  have hr := (Codec.reads_word (Bytes.lt_capacity_eight i.toUInt64)).map
    (f := fun n => int64 (UInt64.ofNat n).toInt64)
  rwa [UInt64.ofNat_toNat] at hr

theorem reads_float64 (x : Double) :
    Reads (decodeWord 8 >>= fun n => pure (float64 ⟨UInt64.ofNat n⟩))
      (Bytes.ofNatLE 8 x.bits.toNat) (float64 x) := by
  have hr := (Codec.reads_word (Bytes.lt_capacity_eight x.bits)).map
    (f := fun n => float64 ⟨UInt64.ofNat n⟩)
  rwa [UInt64.ofNat_toNat] at hr

theorem reads_keyBytes {v : Value} (h : v.Measured) : Reads decodeKey v.keyBytes v.widened := by
  cases v with
  | null => exact (reads_tagByte (n := 0) (by decide)).bind (Reads.pure null)
  | bool b => exact (reads_tagByte (n := 1) (by decide)).bind (Codec.reads_flag b).map
  | int32 i => exact (reads_tagByte (n := 2) (by decide)).bind (reads_int64 i.toInt64)
  | int64 i => exact (reads_tagByte (n := 2) (by decide)).bind (reads_int64 i)
  | float32 x => exact (reads_tagByte (n := 4) (by decide)).bind (reads_float64 x.widen)
  | float64 x => exact (reads_tagByte (n := 4) (by decide)).bind (reads_float64 x)
  | text s => exact (reads_tagByte (n := 6) (by decide)).bind (Codec.reads_text h).map
  | bytes bs => exact (reads_tagByte (n := 7) (by decide)).bind (Codec.reads_blob h).map

/-- No key bytes begin with those of another value. -/
theorem sameKey_of_append {v w : Value} {x y : Bytes} (hv : v.Measured) (hw : w.Measured)
    (h : v.keyBytes ++ x = w.keyBytes ++ y) : SameKey v w ∧ x = y :=
  Codec.append_inj_of_reads (reads_keyBytes hv) (reads_keyBytes hw) h

theorem keyBytes_ne_nil (v : Value) : v.keyBytes ≠ [] := by cases v <;> simp [Value.keyBytes]

end Value

theorem keyBytes_cons (v : Value) (vs : List Value) : keyBytes (v :: vs) = v.keyBytes ++ keyBytes vs :=
  List.flatMap_cons

theorem keyBytes_congr {vs ws : List Value} (h : List.Forall₂ Value.SameKey vs ws) :
    keyBytes vs = keyBytes ws := by
  induction h with
  | nil => rfl
  | cons hvw _ ih => rw [keyBytes_cons, keyBytes_cons, hvw.keyBytes_eq, ih]

theorem sameKeys_of_keyBytes {vs ws : List Value} (hv : ∀ v ∈ vs, v.Measured)
    (hw : ∀ w ∈ ws, w.Measured) (h : keyBytes vs = keyBytes ws) : List.Forall₂ Value.SameKey vs ws := by
  induction vs generalizing ws with
  | nil =>
    cases ws with
    | nil => exact .nil
    | cons w ws =>
      rw [keyBytes_cons] at h
      exact absurd (List.append_eq_nil_iff.mp h.symm).1 w.keyBytes_ne_nil
  | cons v vs ih =>
    cases ws with
    | nil =>
      rw [keyBytes_cons] at h
      exact absurd (List.append_eq_nil_iff.mp h).1 v.keyBytes_ne_nil
    | cons w ws =>
      rw [keyBytes_cons, keyBytes_cons] at h
      obtain ⟨hvw, hrest⟩ :=
        Value.sameKey_of_append (hv v List.mem_cons_self) (hw w List.mem_cons_self) h
      exact .cons hvw (ih (fun v h => hv v (List.mem_cons_of_mem _ h))
        (fun w h => hw w (List.mem_cons_of_mem _ h)) hrest)

/-- Tuples have the same key bytes just when they are of one length and the same value by value. -/
theorem keyBytes_eq_iff {vs ws : List Value} (hv : ∀ v ∈ vs, v.Measured)
    (hw : ∀ w ∈ ws, w.Measured) :
    keyBytes vs = keyBytes ws ↔ List.Forall₂ Value.SameKey vs ws :=
  ⟨sameKeys_of_keyBytes hv hw, keyBytes_congr⟩

/-- Two byte strings, and one that holds the key bytes of the second behind those of the first. -/
theorem keyBytes_eq_iff_lookalikes :
    (∀ v ∈ [Value.bytes [], .bytes [5]], v.Measured) ∧
      (∀ w ∈ [Value.bytes (Value.bytes [5]).keyBytes], w.Measured) ∧
      (keyBytes [.bytes [], .bytes [5]]).length = (keyBytes [.bytes (Value.bytes [5]).keyBytes]).length ∧
      keyBytes [.bytes [], .bytes [5]] ≠ keyBytes [.bytes (Value.bytes [5]).keyBytes] := by
  have hv : ∀ v ∈ [Value.bytes [], .bytes [5]], v.Measured := by simp [Value.Measured, lengthLimit]
  have hw : ∀ w ∈ [Value.bytes (Value.bytes [5]).keyBytes], w.Measured := by
    simp [Value.Measured, Value.keyBytes, lengthLimit]
  refine ⟨hv, hw, rfl, fun h => ?_⟩
  exact absurd ((keyBytes_eq_iff hv hw).mp h).length_eq (by decide)

end QueryCluster
