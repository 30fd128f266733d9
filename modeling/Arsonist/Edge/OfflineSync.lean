import Arsonist.Library.Text
import Arsonist.Library.History
import Arsonist.Library.JsonText
import Arsonist.Library.Steps

/-! The buffer of `edge/offline_sync.py`: payloads are compressed one by one, and a drain hands out
all of them as one string of bytes, which is cut if it is too long. -/
namespace Arsonist.Edge
open Arsonist.Library

structure OfflineSyncBuffer where
  chunks : List (List UInt8) := []
  maxBytes : ℤ := 48000

/-- A call of the buffer. -/
inductive BufferCall
  | enqueue (payload : Json.Object)
  | drain

namespace OfflineSyncBuffer

/-- What is compressed is the text of the payload without blanks. -/
def chunk (compress : List UInt8 → List UInt8) (payload : Json.Object) : List UInt8 :=
  compress (Bytes.utf8 (Json.obj payload).encodeCompact)

/-- `compress` is `zlib.compress` at level 6. -/
def enqueue (s : OfflineSyncBuffer) (compress : List UInt8 → List UInt8) (payload : Json.Object) :
    OfflineSyncBuffer :=
  { s with chunks := s.chunks ++ [chunk compress payload] }

/-- The bytes that are handed out, and the name of their encoding. -/
def drain (s : OfflineSyncBuffer) : OfflineSyncBuffer × List UInt8 × String :=
  let merged := s.chunks.flatten
  let s := { s with chunks := [] }
  if merged.isEmpty then (s,[],"identity")
  else (s,if s.maxBytes < merged.length then firstSlice s.maxBytes merged else merged,"zlib")

def exec (compress : List UInt8 → List UInt8) (s : OfflineSyncBuffer) :
    BufferCall → OfflineSyncBuffer
  | .enqueue payload => s.enqueue compress payload
  | .drain => s.drain.1

/-- What a run put into the buffer. -/
def enqueued (compress : List UInt8 → List UInt8) (calls : List BufferCall) : List (List UInt8) :=
  calls.filterMap fun
    | .enqueue payload => some (chunk compress payload)
    | .drain => none

/-- What a run got out of the buffer. -/
def drained (compress : List UInt8 → List UInt8) (s : OfflineSyncBuffer)
    (calls : List BufferCall) : List (List UInt8) :=
  (steps (exec compress) s calls).filterMap fun
    | (_,.enqueue _) => none
    | (s,.drain) => some s.drain.2.1

/-- Each drain keeps to the budget and is made of whole chunks, and no byte is lost. -/
structure Lossless (compress : List UInt8 → List UInt8) (s : OfflineSyncBuffer)
    (calls : List BufferCall) : Prop where
  within : ∀ d ∈ drained compress s calls, d.length ≤ s.maxBytes
  whole : ∀ d ∈ drained compress s calls,
    ∃ group, group <:+: s.chunks ++ enqueued compress calls ∧ d = group.flatten
  kept : (drained compress s calls).flatten ++ (run (exec compress) s calls).chunks.flatten =
    (s.chunks ++ enqueued compress calls).flatten

/-- A drain finds no more bytes than it may hand out. -/
def Fits (s : OfflineSyncBuffer) : BufferCall → Prop
  | .enqueue _ => True
  | .drain => s.chunks.flatten.length ≤ s.maxBytes

variable {compress : List UInt8 → List UInt8} {s : OfflineSyncBuffer}

/-- A drain takes everything out. -/
theorem drain_fst (s : OfflineSyncBuffer) : s.drain.1 = { s with chunks := [] } := by
  rw [drain]
  dsimp only
  split_ifs <;> rfl

theorem drain_of_fits (h : s.chunks.flatten.length ≤ s.maxBytes) :
    s.drain.2.1 = s.chunks.flatten := by
  rw [drain]
  dsimp only
  by_cases hempty : s.chunks.flatten.isEmpty = true
  · rw [if_pos hempty]
    exact (List.isEmpty_iff.mp hempty).symm
  · rw [if_neg hempty, if_neg (not_lt.mpr h)]

theorem length_drain_le (s : OfflineSyncBuffer) :
    s.drain.2.1.length ≤ s.chunks.flatten.length := by
  rw [drain]
  dsimp only
  split_ifs
  · exact Nat.zero_le _
  · exact length_firstSlice_le _ _
  · exact le_rfl

theorem exec_drain (s : OfflineSyncBuffer) :
    exec compress s .drain = { s with chunks := [] } := drain_fst s

theorem drained_drain (s : OfflineSyncBuffer) (calls : List BufferCall) :
    drained compress s (.drain :: calls) =
      s.drain.2.1 :: drained compress { s with chunks := [] } calls := by
  rw [← exec_drain]
  rfl

theorem enqueued_drain (calls : List BufferCall) :
    enqueued compress (.drain :: calls) = enqueued compress calls := rfl

theorem append_enqueued (s : OfflineSyncBuffer) (payload : Json.Object) (calls : List BufferCall) :
    s.chunks ++ enqueued compress (.enqueue payload :: calls) =
      (s.enqueue compress payload).chunks ++ enqueued compress calls := List.append_cons _ _ _

/-- No byte is handed out twice. -/
theorem length_drained_le (s : OfflineSyncBuffer) (calls : List BufferCall) :
    (drained compress s calls).flatten.length+(run (exec compress) s calls).chunks.flatten.length ≤
      (s.chunks ++ enqueued compress calls).flatten.length := by
  induction calls generalizing s with
  | nil => simp [drained, enqueued]
  | cons call calls ih =>
    cases call with
    | enqueue payload =>
      rw [append_enqueued]
      exact ih (s.enqueue compress payload)
    | drain =>
      have hrest := ih { s with chunks := [] }
      have hout := length_drain_le s
      rw [drained_drain, enqueued_drain, run_cons, exec_drain, List.flatten_cons,
        List.length_append, List.flatten_append, List.length_append]
      rw [List.nil_append] at hrest
      omega

/-- Bytes that a drain cuts off are missing in the end, as nothing is handed out twice. -/
theorem fits_of_kept {calls : List BufferCall}
    (hwithin : ∀ d ∈ drained compress s calls, d.length ≤ s.maxBytes)
    (hkept : (drained compress s calls).flatten ++ (run (exec compress) s calls).chunks.flatten =
      (s.chunks ++ enqueued compress calls).flatten) :
    Along (exec compress) Fits s calls := by
  induction calls generalizing s with
  | nil => trivial
  | cons call calls ih =>
    cases call with
    | enqueue payload =>
      rw [append_enqueued] at hkept
      exact ⟨trivial,ih hwithin hkept⟩
    | drain =>
      rw [drained_drain, List.forall_mem_cons] at hwithin
      rw [drained_drain, enqueued_drain, run_cons, exec_drain, List.flatten_cons,
        List.flatten_append, List.append_assoc] at hkept
      have hrest := @length_drained_le compress { s with chunks := [] } calls
      rw [List.nil_append] at hrest
      have hall : s.drain.2.1.length = s.chunks.flatten.length := by
        have hlength := congrArg List.length hkept
        simp only [List.length_append] at hlength
        have hout := length_drain_le s
        omega
      have hfits : (s.chunks.flatten.length : ℤ) ≤ s.maxBytes := by
        rw [← hall]
        exact hwithin.1
      refine ⟨hfits,?_⟩
      rw [exec_drain]
      exact ih hwithin.2 (List.append_inj hkept hall).2

theorem lossless_of_fits {calls : List BufferCall} (h : Along (exec compress) Fits s calls) :
    Lossless compress s calls := by
  induction calls generalizing s with
  | nil => exact ⟨by simp [drained],by simp [drained],by simp [drained, enqueued]⟩
  | cons call calls ih =>
    have hrest := ih h.2
    cases call with
    | enqueue payload =>
      refine ⟨hrest.within,?_,?_⟩
      · rw [append_enqueued]
        exact hrest.whole
      · rw [append_enqueued]
        exact hrest.kept
    | drain =>
      have hfits : (s.chunks.flatten.length : ℤ) ≤ s.maxBytes := h.1
      rw [exec_drain] at hrest
      refine ⟨?_,?_,?_⟩
      · rw [drained_drain, List.forall_mem_cons, drain_of_fits hfits]
        exact ⟨hfits,hrest.within⟩
      · rw [drained_drain, enqueued_drain, List.forall_mem_cons, drain_of_fits hfits]
        refine ⟨⟨s.chunks,(List.prefix_append _ _).isInfix,rfl⟩,fun d hd => ?_⟩
        obtain ⟨group,hgroup,rfl⟩ := hrest.whole d hd
        exact ⟨group,hgroup.trans (List.suffix_append _ _).isInfix,rfl⟩
      · have hkept := hrest.kept
        rw [List.nil_append] at hkept
        rw [drained_drain, enqueued_drain, run_cons, exec_drain, List.flatten_cons,
          drain_of_fits hfits, List.append_assoc, hkept, List.flatten_append]

/-- A buffer loses nothing exactly if no drain finds more bytes than it may hand out. -/
theorem lossless_iff (compress : List UInt8 → List UInt8) (maxBytes : ℤ)
    (calls : List BufferCall) :
    Lossless compress { maxBytes } calls ↔ Along (exec compress) Fits { maxBytes } calls :=
  ⟨fun h => fits_of_kept h.within h.kept,lossless_of_fits⟩

/-- The stream that stands for an empty object. -/
def emptyStream : List UInt8 := [0x78,0x9c,0xab,0xae,0x05,0x00,0x01,0x75,0x00,0xf9]

/-- Two streams of ten bytes each fit a budget of fifteen bytes, but not together. -/
theorem not_lossless : ¬∀ (compress : List UInt8 → List UInt8) (maxBytes : ℤ)
    (calls : List BufferCall),
    (∀ c ∈ enqueued compress calls, (c.length : ℤ) ≤ maxBytes) →
    Lossless compress { maxBytes } calls := by
  intro h
  have hlossless := h (fun _ => emptyStream) 15 [.enqueue [],.enqueue [],.drain]
    (by decide +kernel)
  obtain ⟨-,-,hdrain,-⟩ := fits_of_kept hlossless.within hlossless.kept
  rw [Fits] at hdrain
  revert hdrain
  decide +kernel

end OfflineSyncBuffer
end Arsonist.Edge
