import Mathlib.Algebra.Ring.Nat
import QueryCluster.Codec.Basic
import QueryCluster.Codec.Batch

/-!
# Faithful codecs

A decoder reads a value from its bytes in front of any rest and leaves the rest alone. A codec is
faithful when its decoder reads every value from what its encoder writes, as long as the bytes can
be counted in a 64-bit word, and when no value is written in no bytes at all. The second part is
what bounds the length of a list by the length of its bytes.
-/
namespace QueryCluster.Codec

/-- How many lengths a length field can tell apart. -/
def lengthLimit : Nat := 2 ^ 64

def Reads {α : Type} (d : Decoder α) (bs : Bytes) (a : α) : Prop :=
  ∀ rest, d (bs ++ rest) = some (a, rest)

structure Faithful {α : Type} (enc : α → Bytes) (d : Decoder α) : Prop where
  pos : ∀ a, 0 < (enc a).length
  reads : ∀ a, (enc a).length < lengthLimit → Reads d (enc a) a

namespace Reads

variable {α β : Type}

theorem pure (a : α) : Reads (Pure.pure a : Decoder α) [] a := fun _ => rfl

theorem bind {d : Decoder α} {f : α → Decoder β} {bs cs : Bytes} {a : α} {b : β}
    (h : Reads d bs a) (k : Reads (f a) cs b) : Reads (d >>= f) (bs ++ cs) b := by
  intro rest
  show (d (bs ++ cs ++ rest) >>= fun r => f r.1 r.2) = some (b, rest)
  rw [List.append_assoc, h]
  exact k rest

/-- The last read of a decoder, with what is made of it. -/
theorem map {d : Decoder α} {f : α → β} {bs : Bytes} {a : α}
    (h : Reads d bs a) : Reads (d >>= fun x => Pure.pure (f x)) bs (f a) := by
  have h := h.bind (f := fun x => Pure.pure (f x)) (pure (f a))
  rwa [List.append_nil] at h

theorem decode? {d : Decoder α} {bs : Bytes} {a : α} (h : Reads d bs a) :
    Codec.decode? d bs = some a := by
  have h := h []
  rw [List.append_nil] at h
  rw [Codec.decode?, h]
  rfl

end Reads

theorem capacity_eight : Bytes.capacity 8 = lengthLimit := by decide

theorem reads_bytes (bs : Bytes) : Reads (decodeBytes bs.length) bs bs :=
  fun rest => splitExact?_append bs rest

theorem reads_word {width n : Nat} (h : n < Bytes.capacity width) :
    Reads (decodeWord width) (encodeWord width n) n :=
  fun rest => decodeWord_encodeWord width n rest h

theorem reads_tag {n : Nat} (h : n < 256) : Reads decodeTag (encodeTag n) n :=
  reads_word (Nat.lt_of_lt_of_le h (by decide))

@[simp] theorem length_encodeWord (width n : Nat) : (encodeWord width n).length = width :=
  Bytes.length_ofNatLE width n

@[simp] theorem length_encodeTag (n : Nat) : (encodeTag n).length = 4 := length_encodeWord 4 n

@[simp] theorem length_encodeFlag (b : Bool) : (encodeFlag b).length = 1 := rfl

@[simp] theorem length_encodeBlob (bs : Bytes) : (encodeBlob bs).length = 8 + bs.length := by
  simp [encodeBlob]

theorem reads_flag (b : Bool) : Reads decodeFlag (encodeFlag b) b := by
  cases b with
  | false => exact (reads_word (by decide : 0 < Bytes.capacity 1)).bind (Reads.pure false)
  | true => exact (reads_word (by decide : 1 < Bytes.capacity 1)).bind (Reads.pure true)

theorem reads_blob {bs : Bytes} (h : bs.length < lengthLimit) :
    Reads decodeBlob (encodeBlob bs) bs :=
  (reads_word (capacity_eight ▸ h)).bind (reads_bytes bs)

theorem toString?_ofString (s : String) : Bytes.toString? (Bytes.ofString s) = some s := by
  have hv : String.fromUTF8? s.toByteArray = some s := by
    rw [String.fromUTF8?, dif_pos s.isValidUTF8]
    rfl
  simpa [Bytes.toString?, Bytes.ofString] using hv

theorem reads_text {s : String} (h : (Bytes.ofString s).length < lengthLimit) :
    Reads decodeText (encodeText s) s := by
  intro rest
  show (decodeBlob (encodeBlob (Bytes.ofString s) ++ rest) >>=
    fun r => (Bytes.toString? r.1).bind fun t => some (t, r.2)) = some (s, rest)
  rw [reads_blob h]
  show ((Bytes.toString? (Bytes.ofString s)).bind fun t => some (t, rest)) = some (s, rest)
  rw [toString?_ofString]
  rfl

theorem faithful_flag : Faithful encodeFlag decodeFlag :=
  ⟨fun _ => Nat.one_pos, fun b _ => reads_flag b⟩

theorem faithful_blob : Faithful encodeBlob decodeBlob where
  pos bs := by rw [length_encodeBlob]; omega
  reads bs h := reads_blob (by rw [length_encodeBlob] at h; omega)

theorem faithful_text : Faithful encodeText decodeText where
  pos s := by rw [encodeText, length_encodeBlob]; omega
  reads s h := reads_text (by rw [encodeText, length_encodeBlob] at h; omega)

/-- A word with as many forms as its type has values. -/
theorem faithful_word {width : Nat} (hw : 0 < width) {α : Type} (toNat : α → Nat) (ofNat : Nat → α)
    (fits : ∀ a, toNat a < Bytes.capacity width) (back : ∀ a, ofNat (toNat a) = a) :
    Faithful (fun a => encodeWord width (toNat a))
      (decodeWord width >>= fun n => pure (ofNat n)) where
  pos a := by simpa using hw
  reads a _ := by simpa only [back] using (reads_word (fits a)).map (f := ofNat)

/-- A choice among few, by number. -/
theorem faithful_choice {α : Type} {code : α → Nat} {ofCode? : Nat → Option α} {d : Decoder α}
    (small : ∀ a, code a < 256) (back : ∀ a, ofCode? (code a) = some a)
    (hd : ∀ bs, d bs = decodeTag bs >>= fun r => (ofCode? r.1).bind fun a => some (a, r.2)) :
    Faithful (fun a => encodeTag (code a)) d where
  pos a := by simp
  reads a _ rest := by
    rw [hd, reads_tag (small a)]
    show ((ofCode? (code a)).bind fun a => some (a, rest)) = some (a, rest)
    rw [back]
    rfl

section Lists

variable {α : Type} {enc : α → Bytes} {d : Decoder α}

theorem reads_many {as : List α} (h : ∀ a ∈ as, Reads d (enc a) a) :
    Reads (decodeMany d as.length) (as.flatMap enc) as := by
  induction as with
  | nil => exact Reads.pure []
  | cons a as ih =>
    have ha := h a List.mem_cons_self
    have has := ih fun b hb => h b (List.mem_cons_of_mem a hb)
    exact ha.bind has.map

theorem length_le_of_mem {as : List α} {a : α} (h : a ∈ as) :
    (enc a).length ≤ (as.flatMap enc).length := by
  induction as with
  | nil => cases h
  | cons b bs ih =>
    rw [List.flatMap_cons, List.length_append]
    rcases List.mem_cons.mp h with rfl | hb
    · omega
    · have := ih hb
      omega

theorem Faithful.length_le (h : Faithful enc d) (as : List α) :
    as.length ≤ (as.flatMap enc).length := by
  induction as with
  | nil => simp
  | cons a as ih =>
    have := h.pos a
    rw [List.flatMap_cons, List.length_append, List.length_cons]
    omega

theorem Faithful.list (h : Faithful enc d) : Faithful (encodeList enc) (decodeList d) where
  pos as := by rw [encodeList, List.length_append, length_encodeWord]; omega
  reads as hl := by
    rw [encodeList, List.length_append, length_encodeWord] at hl
    have hcount := h.length_le as
    have hword : as.length < Bytes.capacity 8 := by rw [capacity_eight]; omega
    refine (reads_word hword).bind (reads_many fun a ha => h.reads a ?_)
    have : (enc a).length ≤ (as.flatMap enc).length := length_le_of_mem ha
    omega

theorem Faithful.option (h : Faithful enc d) : Faithful (encodeOption enc) (decodeOption d) where
  pos o := by cases o <;> simp [encodeOption]
  reads o hl := by
    cases o with
    | none => exact (reads_flag false).bind (Reads.pure none)
    | some a =>
      rw [encodeOption, List.length_cons] at hl
      exact (reads_flag true).bind (h.reads a (by omega)).map

end Lists
end QueryCluster.Codec

/-!
## Values, schemas and batches read back

Every value is read back bit for bit, a NaN with its payload, and with the values every schema and
every batch.
-/
namespace QueryCluster

open Codec

theorem Bytes.lt_capacity_four (n : UInt32) : n.toNat < Bytes.capacity 4 := n.toNat_lt

theorem Bytes.lt_capacity_eight (n : UInt64) : n.toNat < Bytes.capacity 8 := n.toNat_lt

namespace Value

theorem faithful : Faithful Value.encode Value.decode where
  pos v := by cases v <;> simp only [Value.encode, List.length_append, length_encodeTag] <;> omega
  reads v h := by
    cases v with
    | null => exact (reads_tag (n := 0) (by decide)).bind (Reads.pure null)
    | bool b => exact (reads_tag (n := 1) (by decide)).bind (reads_flag b).map
    | int32 i =>
      have hr := (reads_word (Bytes.lt_capacity_four i.toUInt32)).map
        (f := fun n => int32 (UInt32.ofNat n).toInt32)
      rw [UInt32.ofNat_toNat] at hr
      exact (reads_tag (n := 2) (by decide)).bind hr
    | int64 i =>
      have hr := (reads_word (Bytes.lt_capacity_eight i.toUInt64)).map
        (f := fun n => int64 (UInt64.ofNat n).toInt64)
      rw [UInt64.ofNat_toNat] at hr
      exact (reads_tag (n := 3) (by decide)).bind hr
    | float32 x =>
      have hr := (reads_word (Bytes.lt_capacity_four x.bits)).map
        (f := fun n => float32 ⟨UInt32.ofNat n⟩)
      rw [UInt32.ofNat_toNat] at hr
      exact (reads_tag (n := 4) (by decide)).bind hr
    | float64 x =>
      have hr := (reads_word (Bytes.lt_capacity_eight x.bits)).map
        (f := fun n => float64 ⟨UInt64.ofNat n⟩)
      rw [UInt64.ofNat_toNat] at hr
      exact (reads_tag (n := 5) (by decide)).bind hr
    | text s =>
      rw [Value.encode, List.length_append] at h
      exact (reads_tag (n := 6) (by decide)).bind (faithful_text.reads s (by omega)).map
    | bytes bs =>
      rw [Value.encode, List.length_append] at h
      exact (reads_tag (n := 7) (by decide)).bind (faithful_blob.reads bs (by omega)).map

end Value

theorem DataType.faithful : Faithful DataType.encode DataType.decode :=
  faithful_choice (fun t => by cases t <;> decide) DataType.ofCode?_code fun _ => rfl

theorem Direction.faithful : Faithful Direction.encode Direction.decode where
  pos d := by cases d <;> decide
  reads d _ := by
    cases d with
    | ascending => exact (reads_tag (n := 0) (by decide)).bind (Reads.pure ascending)
    | descending => exact (reads_tag (n := 1) (by decide)).bind (Reads.pure descending)

theorem Field.faithful : Faithful Field.encode Field.decode where
  pos f := by
    have := faithful_text.pos f.name
    rw [Field.encode, List.length_append]
    omega
  reads f h := by
    rw [Field.encode, List.length_append] at h
    exact (faithful_text.reads f.name (by omega)).bind (DataType.faithful.reads f.type (by omega)).map

theorem Schema.faithful : Faithful Schema.encode Schema.decode where
  pos s := by
    have := Field.faithful.list.pos s.columns
    rw [Schema.encode, List.length_append]
    omega
  reads s h := by
    rw [Schema.encode, List.length_append] at h
    exact (Field.faithful.list.reads s.columns (by omega)).bind
      (Field.faithful.list.reads s.keys (by omega)).map

theorem Batch.faithful : Faithful Batch.encode Batch.decode where
  pos b := by
    have := Value.faithful.list.list.pos b.columns
    rw [Batch.encode, List.length_append, List.length_append]
    omega
  reads b h := by
    rw [Batch.encode, List.length_append, List.length_append] at h
    rw [Batch.encode, List.append_assoc]
    exact (Value.faithful.list.list.reads b.columns (by omega)).bind
      ((Value.faithful.list.list.reads b.keys (by omega)).bind
        (faithful_flag.list.list.reads b.flags (by omega)).map)

end QueryCluster
