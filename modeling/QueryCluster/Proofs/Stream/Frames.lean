import QueryCluster.Proofs.Stream.Deliveries
import QueryCluster.Proofs.Stream.RoundTrip

/-!
# Frames one after the other

A writer counts the bytes of any payload, but a reader takes no frame whose header announces more than the
limit. So frames that were written one after the other are read back in order, and then the clean end, just
when none of their payloads exceeds the limit. Otherwise the header of the first one that does ends the
reading.
-/
namespace QueryCluster

open Codec (lengthLimit)

namespace Frame

variable {frames front back : List Frame} {f : Frame}

/-- What reading gives for frames that are taken. -/
def taken (frames : List Frame) : List (Except SplitError (Option Frame)) :=
  frames.map fun f => .ok (some f)

theorem readTimes_ended (n : Nat) : readTimes n (Source.ofBytes []) = List.replicate n (.ok none) := by
  induction n with
  | zero => rfl
  | succ n ih => exact congrArg (.ok none :: ·) ih

theorem readTimes_encode (h : ∀ f ∈ frames, f.payload.length ≤ maxPayload) (rest : Bytes) (n : Nat) :
    readTimes (frames.length + n) (Source.ofBytes (frames.flatMap encode ++ rest)) =
      taken frames ++ readTimes n (Source.ofBytes rest) := by
  induction frames with
  | nil => simp [taken]
  | cons f frames ih =>
    obtain ⟨hf, hframes⟩ := List.forall_mem_cons.mp h
    have hread := read_encode f hf (frames.flatMap encode ++ rest)
    rw [List.flatMap_cons, List.append_assoc, List.length_cons, Nat.add_right_comm, readTimes, hread]
    simp only [ih hframes, taken, List.map_cons, List.cons_append]

/-- Behind the frames in front of it, the header of a frame beyond the limit is an error. -/
theorem readTimes_tooLong (hfront : ∀ g ∈ front, g.payload.length ≤ maxPayload)
    (hlong : maxPayload < f.payload.length) (hword : f.payload.length < lengthLimit) (rest : Bytes)
    (n : Nat) : readTimes (front.length + (n + 1))
        (Source.ofBytes (front.flatMap encode ++ (f.header ++ rest))) =
      taken front ++ .error (.protocol (.payloadTooLong f.payload.length)) ::
        readTimes n (Source.ofBytes rest) := by
  rw [readTimes_encode hfront, readTimes, read_header_tooLong f hlong hword]

theorem flatMap_encode_header (front : List Frame) (f : Frame) (back : List Frame) :
    (front ++ f :: back).flatMap encode =
      front.flatMap encode ++ (f.header ++ (f.payload ++ back.flatMap encode)) := by
  simp [encode]

/-- Frames that all fit, or the first one that does not. -/
theorem fit_or_tooLong (frames : List Frame) : (∀ f ∈ frames, f.payload.length ≤ maxPayload) ∨
    ∃ front f back, frames = front ++ f :: back ∧ (∀ g ∈ front, g.payload.length ≤ maxPayload) ∧
      maxPayload < f.payload.length := by
  cases hfind : frames.find? fun f => maxPayload < f.payload.length with
  | none =>
    left
    simpa [List.find?_eq_none] using hfind
  | some f =>
    obtain ⟨hlong, front, back, hframes, hfront⟩ := List.find?_eq_some_iff_append.mp hfind
    right
    exact ⟨front, f, back, hframes, by simpa using hfront, by simpa using hlong⟩

theorem not_readTimes_tooLong (hfront : ∀ g ∈ front, g.payload.length ≤ maxPayload)
    (hlong : maxPayload < f.payload.length) (hword : f.payload.length < lengthLimit) :
    readTimes (front ++ f :: back).length (Source.ofBytes ((front ++ f :: back).flatMap encode)) ≠
      taken (front ++ f :: back) := by
  intro h
  rw [List.length_append, List.length_cons, flatMap_encode_header,
    readTimes_tooLong hfront hlong hword] at h
  simp [taken] at h

/-- Frames that were written one after the other are read back in order, and then the clean end again and
again, just when each payload is within the limit of a reader. A frame beyond the limit is written all the
same, but its header ends the reading with an error, whether the bytes behind it arrive or not. -/
theorem written_frames_read_back (hwords : ∀ f ∈ frames, f.payload.length < lengthLimit) :
    (∀ s : Source, s.Delivers (frames.flatMap encode) →
      ((∀ n, readTimes (frames.length + n) s = taken frames ++ List.replicate n (.ok none)) ↔
        ∀ f ∈ frames, f.payload.length ≤ maxPayload)) ∧
    ∀ front f back, frames = front ++ f :: back → (∀ g ∈ front, g.payload.length ≤ maxPayload) →
      maxPayload < f.payload.length → ∀ (s : Source) (n : Nat),
        s.Delivers ((frames.flatMap encode).take n) →
          (front.flatMap encode).length + headerLength ≤ n →
            readTimes (front.length + 1) s =
              taken front ++ [.error (.protocol (.payloadTooLong f.payload.length))] := by
  have hsame : ∀ {s : Source} {bs : Bytes}, s.Delivers bs →
      ∀ n, readTimes n s = readTimes n (Source.ofBytes bs) := fun hs n =>
    readTimes_same n ⟨_, hs, Source.delivers_ofBytes _⟩
  constructor
  · intro s hs
    simp only [hsame hs]
    constructor
    · intro hread
      rcases fit_or_tooLong frames with hfit | ⟨front, f, back, rfl, hfront, hlong⟩
      · exact hfit
      · have hword := hwords f (List.mem_append_right _ List.mem_cons_self)
        exact absurd (by simpa using hread 0) (not_readTimes_tooLong hfront hlong hword)
    · intro hfit n
      have hend := readTimes_encode hfit [] n
      rwa [List.append_nil, readTimes_ended] at hend
  · rintro front f back rfl hfront hlong s n hs hn
    have hword := hwords f (List.mem_append_right _ List.mem_cons_self)
    have hcut : n = (front.flatMap encode).length + (f.header.length +
        (n - (front.flatMap encode).length - headerLength)) := by
      rw [length_header]
      omega
    rw [flatMap_encode_header, hcut, List.take_length_add_append, List.take_length_add_append] at hs
    rw [hsame hs]
    exact readTimes_tooLong hfront hlong hword _ 0

/-- A payload of zeros. -/
def zeros (kind : FrameKind) (length : Nat) : Frame := ⟨kind, List.replicate length 0⟩

theorem length_zeros (kind : FrameKind) (length : Nat) : (zeros kind length).payload.length = length :=
  List.length_replicate

/-- One batch at the limit and one a byte beyond it. -/
def atLimit : List Frame := [zeros .batch maxPayload, zeros .batch (maxPayload + 1)]

/-- The first of them, and the second up to its header. -/
def atLimitCut : Bytes := (atLimit.flatMap encode).take (2 * headerLength + maxPayload)

theorem written_frames_read_back_atLimit :
    (∀ f ∈ atLimit, f.payload.length < lengthLimit) ∧
      readTimes 2 (Source.ofBytes (atLimit.flatMap encode)) = [.ok (some (zeros .batch maxPayload)),
        .error (.protocol (.payloadTooLong (maxPayload + 1)))] ∧
      readTimes 2 (Source.ofBytes atLimitCut) = [.ok (some (zeros .batch maxPayload)),
        .error (.protocol (.payloadTooLong (maxPayload + 1)))] := by
  have hwords : ∀ f ∈ atLimit, f.payload.length < lengthLimit := by
    simp only [atLimit, List.mem_cons, List.not_mem_nil, or_false, forall_eq_or_imp, forall_eq,
      length_zeros]
    decide
  have hread := (written_frames_read_back hwords).2 [zeros .batch maxPayload]
    (zeros .batch (maxPayload + 1)) [] rfl (by simp [length_zeros]) (by simp [length_zeros])
  have hfront : ([zeros .batch maxPayload].flatMap encode).length = headerLength + maxPayload := by
    rw [List.flatMap_singleton, length_encode, length_zeros]
  have hall : (atLimit.flatMap encode).length = 2 * headerLength + 2 * maxPayload + 1 := by
    rw [atLimit, List.flatMap_cons, List.flatMap_singleton, List.length_append, length_encode,
      length_encode, length_zeros, length_zeros]
    omega
  rw [length_zeros, hfront] at hread
  refine ⟨hwords, hread _ (atLimit.flatMap encode).length ?_ (by omega),
    hread _ _ (Source.delivers_ofBytes _) (by omega)⟩
  rw [List.take_length]
  exact Source.delivers_ofBytes _

/-- A writer refuses no payload, so not all that it writes can be read. -/
theorem not_all_frames_read_back : ¬ ∀ frames : List Frame, (∀ f ∈ frames, f.payload.length < lengthLimit) →
    readTimes (frames.length + 1) (Source.ofBytes (frames.flatMap encode)) = taken frames ++ [.ok none] := by
  intro h
  have hlong : maxPayload < (zeros .batch (maxPayload + 1)).payload.length := by simp [length_zeros]
  have hword : (zeros .batch (maxPayload + 1)).payload.length < lengthLimit := by
    rw [length_zeros]
    decide
  have hread := h [zeros .batch (maxPayload + 1)] (by simpa using hword)
  have hnone : ∀ g ∈ ([] : List Frame), g.payload.length ≤ maxPayload := by simp
  have herror := readTimes_tooLong hnone hlong hword (zeros .batch (maxPayload + 1)).payload 1
  have hbytes : [zeros .batch (maxPayload + 1)].flatMap encode = ([] : List Frame).flatMap encode ++
      ((zeros .batch (maxPayload + 1)).header ++ (zeros .batch (maxPayload + 1)).payload) := by
    rw [List.flatMap_singleton, encode, List.flatMap_nil, List.nil_append]
  rw [hbytes] at hread
  exact absurd (hread.symm.trans herror) (by simp [taken])

end Frame
end QueryCluster
