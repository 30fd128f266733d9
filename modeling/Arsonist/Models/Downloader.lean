import Arsonist.Library.Text

/-! Downloads of model files. The destination is opened for writing before the first byte arrives,
and the checksum is compared after the last one. -/
namespace Arsonist.Models
open Arsonist.Library

/-- The contents of the files, by their paths. -/
abbrev Files := String → Option (List UInt8)

/-- What the server answers: a status, the chunks that arrive, and whether the connection breaks
after them. -/
structure Response where
  status : ℕ
  chunks : List (List UInt8)
  broken : Bool := false
  deriving DecidableEq

/-- `raise_for_status` does not raise. -/
def Response.IsSuccess (r : Response) : Prop := 200 ≤ r.status ∧ r.status < 300

instance (r : Response) : Decidable r.IsSuccess := inferInstanceAs (Decidable (_ ∧ _))

/-- A call of `download`. A progress callback is told the number of bytes so far; whether it raises
may depend on how often it was called. -/
structure Download where
  /-- `none` if no response arrives. -/
  response : Option Response
  /-- Whether the destination can be opened for writing. -/
  writable : Bool := true
  destName : String
  expectedSha256 : Option String := none
  progress : Option (ℕ → ℕ → Bool) := none

inductive DownloadError
  | unreachable
  | status (code : ℕ)
  | unwritable
  | disconnected
  | callback
  | valueError (text : String)
  deriving DecidableEq

/-- `cache_root / dest_name`. -/
def joinPath (root name : String) : String :=
  if name.toList.head? = some '/' then name
  else if name = "" then root
  else root ++ "/" ++ name

namespace Download
variable (d : Download)

/-- The callback raises when it is called for the chunk with this number. -/
def Raises (n total : ℕ) : Prop :=
  match d.progress with
  | none => False
  | some raises => raises n total = true

instance (n total : ℕ) : Decidable (d.Raises n total) := by
  unfold Raises
  split <;> infer_instance

/-- The loop over the chunks: what is in the file in the end, and whether the callback raised. -/
def receive (n total : ℕ) (written : List UInt8) : List (List UInt8) → List UInt8 × Bool
  | [] => (written,false)
  | chunk :: rest =>
    if d.Raises n (total+chunk.length) then (written ++ chunk,true)
    else receive (n+1) (total+chunk.length) (written ++ chunk) rest

/-- `sha256_file` of the destination, compared with what is expected, if anything is. -/
def Matches (sha256 : List UInt8 → String) (content : List UInt8) : Prop :=
  match d.expectedSha256 with
  | none => True
  | some expected => expected = "" ∨ sha256 content = Text.lower expected

instance (sha256 : List UInt8 → String) (content : List UInt8) :
    Decidable (d.Matches sha256 content) := by
  unfold Matches
  split <;> infer_instance

/-- `download`. -/
def download (sha256 : List UInt8 → String) (root : String) (files : Files) :
    Files × Except DownloadError String :=
  let dest := joinPath root d.destName
  match d.response with
  | none => (files,.error .unreachable)
  | some resp =>
    if ¬ resp.IsSuccess then (files,.error (.status resp.status))
    else if d.writable = false then (files,.error .unwritable)
    else
      let (written,raised) := d.receive 0 0 [] resp.chunks
      let files := Function.update files dest (some written)
      if raised then (files,.error .callback)
      else if resp.broken then (files,.error .disconnected)
      else if d.Matches sha256 written then (files,.ok dest)
      else (files,.error (.valueError "checksum mismatch"))

/-- The number of the first chunk for which the callback raises, out of these. -/
def stop (chunks : List (List UInt8)) : Option ℕ :=
  (List.range chunks.length).find? fun i => d.Raises i (chunks.take (i+1)).flatten.length

/-- The chunks that are written: those up to one for which the callback raises. -/
def writtenChunks (chunks : List (List UInt8)) : List (List UInt8) :=
  match d.stop chunks with
  | none => chunks
  | some i => chunks.take (i+1)

theorem receive_eq (n total : ℕ) (written : List UInt8) (chunks : List (List UInt8)) :
    d.receive n total written chunks =
      match (List.range chunks.length).find? fun i =>
        d.Raises (n+i) (total+(chunks.take (i+1)).flatten.length) with
      | none => (written ++ chunks.flatten,false)
      | some i => (written ++ (chunks.take (i+1)).flatten,true) := by
  induction chunks generalizing n total written with
  | nil => simp [receive]
  | cons chunk rest ih =>
    rw [receive, List.length_cons, List.range_succ_eq_map, List.find?_cons]
    by_cases h : d.Raises n (total+chunk.length)
    · rw [if_pos h]
      simp [h]
    · rw [if_neg h, ih, List.find?_map]
      have hfirst : ¬ d.Raises (n+0) (total+((chunk :: rest).take (0+1)).flatten.length) := by
        simpa using h
      have hrest : ((fun i => decide (d.Raises (n+i)
          (total+((chunk :: rest).take (i+1)).flatten.length))) ∘ Nat.succ) = fun i =>
          decide (d.Raises (n+1+i) (total+chunk.length+(rest.take (i+1)).flatten.length)) := by
        funext i
        have hn : n+i.succ = n+1+i := by omega
        have ht : total+((chunk :: rest).take (i.succ+1)).flatten.length =
            total+chunk.length+(rest.take (i+1)).flatten.length := by
          rw [List.take_succ_cons, List.flatten_cons, List.length_append]
          exact (Nat.add_assoc _ _ _).symm
        rw [Function.comp_apply, hn, ht]
      rw [hrest, decide_eq_false hfirst]
      cases (List.range rest.length).find? fun i =>
          decide (d.Raises (n+1+i) (total+chunk.length+(rest.take (i+1)).flatten.length)) with
      | none => simp
      | some i => simp

theorem receive_start (chunks : List (List UInt8)) :
    d.receive 0 0 [] chunks = ((d.writtenChunks chunks).flatten,(d.stop chunks).isSome) := by
  have hstop : d.stop chunks = (List.range chunks.length).find? fun i =>
      d.Raises (0+i) (0+(chunks.take (i+1)).flatten.length) := by
    simp only [stop, Nat.zero_add]
  rw [receive_eq, ← hstop, writtenChunks]
  cases d.stop chunks with
  | none => rfl
  | some i => rfl

section Outcome
variable {d} (sha256 : List UInt8 → String) (root : String) (files : Files) {resp : Response}

/-- The destination is opened for writing. -/
def Opens (d : Download) (resp : Response) : Prop :=
  d.response = some resp ∧ resp.IsSuccess ∧ d.writable = true

/-- All chunks arrive, the callback never raises, and the checksum is the one that is expected. -/
def Completes (d : Download) (sha256 : List UInt8 → String) (resp : Response) : Prop :=
  d.stop resp.chunks = none ∧ resp.broken = false ∧ d.Matches sha256 resp.chunks.flatten

theorem writtenChunks_of_none {chunks : List (List UInt8)} (h : d.stop chunks = none) :
    d.writtenChunks chunks = chunks := by
  rw [writtenChunks, h]

/-- A file that was opened holds the chunks that were written, whatever the call returns. -/
theorem download_of_opens (h : d.Opens resp) :
    (d.download sha256 root files).1 =
        Function.update files (joinPath root d.destName)
          (some (d.writtenChunks resp.chunks).flatten) ∧
      ((∃ e, (d.download sha256 root files).2 = .error e) ↔ ¬ d.Completes sha256 resp) ∧
      (d.Completes sha256 resp →
        (d.download sha256 root files).2 = .ok (joinPath root d.destName)) := by
  obtain ⟨hresp,hstatus,hwritable⟩ := h
  rw [download, hresp]
  dsimp only
  rw [if_neg (not_not.mpr hstatus), if_neg (by rw [hwritable]; exact Bool.true_eq_false_eq_False),
    receive_start]
  dsimp only
  rw [Completes]
  cases hstop : d.stop resp.chunks with
  | some i => exact ⟨rfl,iff_of_true ⟨_,rfl⟩ nofun,nofun⟩
  | none =>
    rw [writtenChunks_of_none hstop, Option.isSome_none, if_neg Bool.false_ne_true]
    by_cases hbroken : resp.broken = true
    · rw [if_pos hbroken, hbroken]
      exact ⟨rfl,iff_of_true ⟨_,rfl⟩ nofun,nofun⟩
    · rw [if_neg hbroken]
      by_cases hmatches : d.Matches sha256 resp.chunks.flatten
      · rw [if_pos hmatches]
        refine ⟨rfl,iff_of_false nofun (not_not.mpr ?_),fun _ => rfl⟩
        exact ⟨rfl,Bool.eq_false_of_not_eq_true hbroken,hmatches⟩
      · rw [if_neg hmatches]
        exact ⟨rfl,iff_of_true ⟨_,rfl⟩ fun hdone => hmatches hdone.2.2,
          fun hdone => absurd hdone.2.2 hmatches⟩

/-- Before the file is opened a call that raises leaves everything as it was. -/
theorem download_of_not_opens (h : ∀ resp, ¬ d.Opens resp) :
    (d.download sha256 root files).1 = files := by
  rw [download]
  cases hresp : d.response with
  | none => rfl
  | some resp =>
    dsimp only
    by_cases hstatus : resp.IsSuccess
    · by_cases hwritable : d.writable = true
      · exact absurd ⟨hresp,hstatus,hwritable⟩ (h resp)
      · rw [if_neg (not_not.mpr hstatus), if_pos (Bool.eq_false_of_not_eq_true hwritable)]
    · rw [if_pos hstatus]

/-- A call that raises leaves the destination as it was exactly if the destination was not opened,
or the call does not raise, or what it wrote was there before. -/
theorem untouched_on_error_iff :
    (∀ e, (d.download sha256 root files).2 = .error e →
        (d.download sha256 root files).1 (joinPath root d.destName) =
          files (joinPath root d.destName)) ↔
      ∀ resp, d.Opens resp → d.Completes sha256 resp ∨
        files (joinPath root d.destName) = some (d.writtenChunks resp.chunks).flatten := by
  by_cases h : ∃ resp, d.Opens resp
  · obtain ⟨resp,hopens⟩ := h
    obtain ⟨hfiles,herror,-⟩ := download_of_opens sha256 root files hopens
    have honly : ∀ other, d.Opens other → other = resp := fun other hother =>
      Option.some.inj (hother.1.symm.trans hopens.1)
    rw [hfiles, Function.update_self]
    constructor
    · intro h other hother
      obtain rfl := honly other hother
      by_cases hdone : d.Completes sha256 other
      · exact Or.inl hdone
      · obtain ⟨e,he⟩ := herror.mpr hdone
        exact Or.inr (h e he).symm
    · intro h e he
      obtain hdone | hsame := h resp hopens
      · exact absurd hdone (herror.mp ⟨e,he⟩)
      · exact hsame.symm
  · have hno : ∀ resp, ¬ d.Opens resp := fun resp hresp => h ⟨resp,hresp⟩
    rw [download_of_not_opens sha256 root files hno]
    exact iff_of_true (fun _ _ => rfl) fun resp hresp => absurd hresp (hno resp)

/-- A call that returns has left the whole file, with the checksum that is expected. -/
theorem content_of_ok {dest : String} (h : (d.download sha256 root files).2 = .ok dest) :
    dest = joinPath root d.destName ∧ ∃ resp, d.response = some resp ∧
      (d.download sha256 root files).1 dest = some resp.chunks.flatten ∧
        d.Matches sha256 resp.chunks.flatten := by
  have hopens : ∃ resp, d.Opens resp := by
    by_contra hno
    rw [download] at h
    cases hresp : d.response with
    | none =>
      rw [hresp] at h
      cases h
    | some resp =>
      rw [hresp] at h
      dsimp only at h
      split_ifs at h with hstatus hwritable
      exact hno ⟨resp,hresp,hstatus,by simpa using hwritable⟩
  obtain ⟨resp,hresp⟩ := hopens
  obtain ⟨hfiles,herror,hok⟩ := download_of_opens sha256 root files hresp
  have hdone : d.Completes sha256 resp := by
    by_contra hno
    obtain ⟨e,he⟩ := herror.mpr hno
    rw [h] at he
    cases he
  obtain rfl := Except.ok.inj (h.symm.trans (hok hdone))
  refine ⟨rfl,resp,hresp.1,?_,hdone.2.2⟩
  rw [hfiles, Function.update_self, writtenChunks_of_none hdone.1]

end Outcome

/-- A model that is in the cache. -/
def cached : Files := fun path => if path = "/models/m.bin" then some [1,2,3] else none

/-- A download of it that breaks after one of its three bytes. -/
def brokenDownload : Download where
  response := some ⟨200,[[1]],true⟩
  destName := "m.bin"

/-- The broken download leaves a part of the file. -/
theorem untouched_on_error_broken :
    ¬ ∀ (d : Download) (sha256 : List UInt8 → String) (root : String) (files : Files)
      (e : DownloadError), (d.download sha256 root files).2 = .error e →
        (d.download sha256 root files).1 (joinPath root d.destName) =
          files (joinPath root d.destName) := by
  intro h
  have hsame := h brokenDownload (fun _ => "") "/models" cached .disconnected rfl
  revert hsame
  decide +kernel

end Download
end Arsonist.Models
