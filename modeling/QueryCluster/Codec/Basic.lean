import QueryCluster.Bytes

/-!
# The binary codec

Whole numbers have a fixed width, least significant byte first. A sequence is its length in eight
bytes and then its items; a choice is its number in four bytes and then its contents. A decoder
consumes what it reads and leaves the rest.
-/
namespace QueryCluster.Codec

abbrev Decoder := StateT Bytes Option

/-- The first `n` bytes and those after them. -/
def splitExact? : Nat → Bytes → Option (Bytes × Bytes)
  | 0, bs => some ([], bs)
  | _ + 1, [] => none
  | n + 1, b :: bs => (splitExact? n bs).map fun (front, rest) => (b :: front, rest)

theorem splitExact?_append (front rest : Bytes) :
    splitExact? front.length (front ++ rest) = some (front, rest) := by
  induction front with
  | nil => rfl
  | cons b bs ih => simp [splitExact?, ih]

def decodeBytes (n : Nat) : Decoder Bytes := fun bs => splitExact? n bs

def encodeWord (width n : Nat) : Bytes := Bytes.ofNatLE width n

def decodeWord (width : Nat) : Decoder Nat := do
  let bs ← decodeBytes width
  return Bytes.toNatLE bs

theorem decodeWord_encodeWord (width n : Nat) (rest : Bytes) (h : n < Bytes.capacity width) :
    decodeWord width (encodeWord width n ++ rest) = some (n, rest) := by
  have hs := splitExact?_append (Bytes.ofNatLE width n) rest
  rw [Bytes.length_ofNatLE] at hs
  show (splitExact? width (Bytes.ofNatLE width n ++ rest) >>=
    fun (bs, rest) => some (Bytes.toNatLE bs, rest)) = some (n, rest)
  rw [hs]
  show some (Bytes.toNatLE (Bytes.ofNatLE width n), rest) = some (n, rest)
  rw [Bytes.toNatLE_ofNatLE, Nat.mod_eq_of_lt h]

def decodeMany {α : Type} (item : Decoder α) : Nat → Decoder (List α)
  | 0 => return []
  | n + 1 => do
    let a ← item
    let rest ← decodeMany item n
    return a :: rest

def encodeList {α : Type} (item : α → Bytes) (as : List α) : Bytes :=
  encodeWord 8 as.length ++ as.flatMap item

def decodeList {α : Type} (item : Decoder α) : Decoder (List α) := do
  let n ← decodeWord 8
  decodeMany item n

def encodeBlob (bs : Bytes) : Bytes := encodeWord 8 bs.length ++ bs

def decodeBlob : Decoder Bytes := do
  let n ← decodeWord 8
  decodeBytes n

def encodeText (s : String) : Bytes := encodeBlob (Bytes.ofString s)

def decodeText : Decoder String := do
  let bs ← decodeBlob
  Bytes.toString? bs

def encodeFlag (b : Bool) : Bytes := [if b then 1 else 0]

def decodeFlag : Decoder Bool := do
  match ← decodeWord 1 with
  | 0 => return false
  | 1 => return true
  | _ => failure

def encodeOption {α : Type} (item : α → Bytes) : Option α → Bytes
  | none => [0]
  | some a => 1 :: item a

def decodeOption {α : Type} (item : Decoder α) : Decoder (Option α) := do
  if ← decodeFlag then return some (← item) else return none

def encodeTag (n : Nat) : Bytes := encodeWord 4 n

def decodeTag : Decoder Nat := decodeWord 4

/-- Bytes behind a complete message are ignored. -/
def decode? {α : Type} (d : Decoder α) (bs : Bytes) : Option α := (d bs).map Prod.fst

end QueryCluster.Codec
