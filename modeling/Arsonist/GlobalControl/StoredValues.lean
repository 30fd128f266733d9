import Arsonist.GlobalControl.GlobalState
import Arsonist.Library.LenientJson

/-! What becomes of a value that is stored: strings are stored as they are and everything else as
JSON text, and the reader takes for JSON whatever can be read as JSON. -/
namespace Arsonist.GlobalControl
open Arsonist.Library GlobalState

/-- What a reader can get: a JSON value, or what the decoder makes of a text that is beyond JSON.
That equals no JSON value, nor a string that could be stored. -/
inductive PyValue
  | json (v : Json)
  | beyond (text : String)

namespace PyValue

def asStr : PyValue → Option String
  | json v => v.asStr
  | beyond _ => none

/-- Values beyond JSON are not written by anyone. Their texts would read back as they are. -/
def dumps : PyValue → String
  | json v => v.encode
  | beyond text => text

/-- `none` stands for a `JSONDecodeError`. -/
def loads (text : String) : Option PyValue :=
  match Json.decode text with
  | some v => some (json v)
  | none => if Json.beyond text then some (beyond text) else none

end PyValue

/-- The JSON library of the source, with all that it reads. -/
def pyCodec : JsonCodec PyValue :=
  ⟨.json .null,fun s => .json (.str s),PyValue.asStr,PyValue.dumps,PyValue.loads⟩

/-- A JSON value that can be written. -/
abbrev JsonValue := {v : Json // v.wellFormed = true}

/-- The value is a string that the decoder takes for JSON. -/
def LooksLikeJson (v : Json) : Prop := ∃ text, v = .str text ∧ Json.accepts text = true

theorem loaded_of_accepts {text : String} (h : Json.accepts text = true) :
    pyCodec.loaded text ≠ .json (.str text) := by
  change (PyValue.loads text).getD _ ≠ _
  unfold PyValue.loads
  rw [Json.accepts, Bool.or_eq_true] at h
  cases hdecode : Json.decode text with
  | some v =>
    intro he
    obtain rfl := PyValue.json.inj he
    exact Json.decode_ne_self text hdecode
  | none =>
    have hbeyond : Json.beyond text = true := by
      rw [hdecode] at h
      exact h.resolve_left Bool.false_ne_true
    dsimp only
    rw [if_pos hbeyond]
    nofun

theorem loaded_of_not_accepts {text : String} (h : ¬Json.accepts text = true) :
    pyCodec.loaded text = .json (.str text) := by
  rw [Json.accepts, Bool.or_eq_true, not_or] at h
  have hdecode : Json.decode text = none := by simpa using h.1
  change (PyValue.loads text).getD _ = _
  unfold PyValue.loads
  rw [hdecode]
  dsimp only
  rw [if_neg h.2]
  rfl

/-- A value reads back as itself unless it is a string that looks like JSON. -/
theorem readBack_eq_iff (v : JsonValue) :
    pyCodec.readBack (.json v.1) = .json v.1 ↔ ¬LooksLikeJson v.1 := by
  obtain ⟨v,hv⟩ := v
  cases hstr : v.asStr with
  | some text =>
    obtain rfl : v = .str text := by
      cases v with
      | str s => exact congrArg Json.str (Option.some.inj hstr)
      | _ => cases hstr
    change pyCodec.loaded text = _ ↔ _
    constructor
    · rintro hread ⟨text',he,haccepts⟩
      obtain rfl := Json.str.inj he
      exact loaded_of_accepts haccepts hread
    · intro h
      exact loaded_of_not_accepts fun haccepts => h ⟨text,rfl,haccepts⟩
  | none =>
    have hserialized : pyCodec.serialized (.json v) = v.encode := by
      change (v.asStr).getD v.encode = _
      rw [hstr]
      rfl
    refine iff_of_true ?_ ?_
    · rw [JsonCodec.readBack, hserialized]
      change (PyValue.loads v.encode).getD _ = _
      rw [PyValue.loads, Json.decode_encode hv]
      rfl
    · rintro ⟨text,rfl,-⟩
      cases hstr

/-- A key shows a value: `get` returns it, and so does every snapshot that covers the key. -/
structure Shows (s : GlobalState) (ns key : String) (v : PyValue) : Prop where
  get : ∃ e, s.get pyCodec ns key = some e ∧ e.value = v
  covered : ∀ nsOpt, selects nsOpt ns = true →
    ∃ shown ∈ s.snapshot pyCodec nsOpt, shown.ns = ns ∧ shown.k = key
  snapshot : ∀ nsOpt, ∀ shown ∈ s.snapshot pyCodec nsOpt, shown.ns = ns → shown.k = key →
    shown.value = v

theorem shows_iff {s : GlobalState} {ns key : String} {v : PyValue} :
    Shows s ns key v ↔ (s.get pyCodec ns key).map Entry.value = some v := by
  rw [Option.map_eq_some_iff]
  constructor
  · exact Shows.get
  · rintro ⟨e,hget,rfl⟩
    refine ⟨⟨e,hget,rfl⟩,fun nsOpt hselected => ?_,?_⟩
    · exact ⟨⟨ns,key,e.value,e.version⟩,mem_snapshot pyCodec s|>.mpr
        ⟨hselected,e,hget,rfl,rfl⟩,rfl,rfl⟩
    · rintro nsOpt ⟨ns',key',value,version⟩ hshown rfl rfl
      obtain ⟨-,e',hget',rfl,-⟩ := (mem_snapshot pyCodec s).mp hshown
      rw [hget] at hget'
      exact congrArg Entry.value (Option.some.inj hget').symm

/-- After a `put` and operations on other keys, a key has the value as it reads back. -/
theorem get_after_put (s : GlobalState) (now : ℚ) (ns key : String) (v : PyValue)
    {ops : List (StateOp PyValue)} (h : ∀ op ∈ ops, ¬op.About ns key) :
    ((run (apply pyCodec) (s.put pyCodec now ns key v).1 ops).get pyCodec ns key).map Entry.value =
      some (pyCodec.readBack v) := by
  rw [get_run_of_not_about pyCodec _ h, get_put, if_pos rfl]
  rfl

end Arsonist.GlobalControl
