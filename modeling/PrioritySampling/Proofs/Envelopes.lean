import PrioritySampling.Export.Envelope
import PrioritySampling.Proofs.Magnitudes
import PrioritySampling.Proofs.Reading
/-!
# Envelopes are read as they were written

A floating-point number that is not finite is written as null, which does not read as a number.
So the text of an envelope is read as the same envelope if all its floating-point numbers are
finite, and not at all otherwise.  Null is also what a missing text and the empty payload are
written as; it is the kind of payload that tells what it means, and no kind gives it two meanings.

Whatever text is read, the floating-point numbers read from it are finite.  Hence an envelope that
has been read can be written and read again.
-/

namespace PrioritySampling

/-- The number is read from the value that it is written as. -/
def Binary64.Legible (x : Binary64) : Prop :=
  (Json.Value.ofBinary64 x).toBinary64? = some x

theorem Binary64.legible_of_isFinite {x : Binary64} (hfinite : x.isFinite = true)
    (hread : (Json.Number.ofBinary64 x).toBinary64? = some x) : x.Legible := by
  rw [Legible, Json.Value.ofBinary64, if_pos hfinite]
  exact hread

namespace Json

namespace Value

/-- Only finite numbers are written as something that reads as a number. -/
theorem isFinite_of_toBinary64?_ofBinary64 {x y : Binary64}
    (h : (ofBinary64 x).toBinary64? = some y) : x.isFinite = true := by
  by_contra hfinite
  rw [ofBinary64, if_neg hfinite] at h
  cases h

theorem isFinite_of_toBinary64? {value : Value} {x : Binary64} (h : value.toBinary64? = some x) :
    x.isFinite = true := by
  cases value with
  | number n => exact n.isFinite_of_toBinary64? h
  | _ => cases h

/-- A list is read item by item. -/
theorem mapM_eq_some {α β : Type} {read : α → Option β} {values : List α} {items : List β}
    (h : values.mapM read = some items) :
    (∀ value ∈ values, ∃ item, read value = some item) ∧
      ∀ item ∈ items, ∃ value ∈ values, read value = some item := by
  induction values generalizing items with
  | nil =>
    cases h
    exact ⟨nofun, nofun⟩
  | cons value values ih =>
    rw [List.mapM_cons] at h
    obtain ⟨first, hfirst, h⟩ := Option.bind_eq_some_iff.mp h
    obtain ⟨later, hlater, h⟩ := Option.bind_eq_some_iff.mp h
    cases h
    obtain ⟨hread, hfrom⟩ := ih hlater
    refine ⟨List.forall_mem_cons.mpr ⟨⟨first, hfirst⟩, hread⟩,
      List.forall_mem_cons.mpr ⟨⟨value, List.mem_cons_self, hfirst⟩, fun item hitem => ?_⟩⟩
    obtain ⟨source, hsource, hitem⟩ := hfrom item hitem
    exact ⟨source, List.mem_cons_of_mem value hsource, hitem⟩

end Value

/-! ## Payloads -/

/-- Payloads with the given floating-point numbers in them are read as they were written, if they
are legible, and the numbers are finite in all that is read. -/
structure Payload.Faithful {π : Type} [Payload π] (floats : π → List Binary64) : Prop where
  decode_encode : ∀ {payload}, (∀ x ∈ floats payload, x.Legible) →
    Payload.decode? (Payload.encode payload) = some payload
  isFinite_of_decode_encode : ∀ {payload read : π},
    Payload.decode? (Payload.encode payload) = some read →
      ∀ x ∈ floats payload, x.isFinite = true
  isFinite_of_decode : ∀ {value : Value} {payload : π}, Payload.decode? value = some payload →
    ∀ x ∈ floats payload, x.isFinite = true
  isFinite_of_absent : ∀ {payload}, Payload.absent = some payload →
    ∀ x ∈ floats payload, x.isFinite = true

/-- A payload without floating-point numbers has only to be read as it was written. -/
theorem Payload.faithful_of_decode_encode {π : Type} [Payload π]
    (h : ∀ payload : π, Payload.decode? (Payload.encode payload) = some payload) :
    Payload.Faithful fun _ : π => [] :=
  ⟨fun _ => h _, fun _ => nofun, fun _ => nofun, fun _ => nofun⟩

/-- The kinds of payload. -/
inductive Kind where
  | text
  | optionalText
  | byte
  | word
  | float
  | flag
  | unit
  | bytes

namespace Kind

/-- The payloads of a kind. -/
def Carrier : Kind → Type
  | text => String
  | optionalText => Option String
  | byte => UInt8
  | word => Int64
  | float => Binary64
  | flag => Bool
  | unit => Unit
  | bytes => List UInt8

instance : (kind : Kind) → Payload kind.Carrier
  | text => inferInstanceAs (Payload String)
  | optionalText => inferInstanceAs (Payload (Option String))
  | byte => inferInstanceAs (Payload UInt8)
  | word => inferInstanceAs (Payload Int64)
  | float => inferInstanceAs (Payload Binary64)
  | flag => inferInstanceAs (Payload Bool)
  | unit => inferInstanceAs (Payload Unit)
  | bytes => inferInstanceAs (Payload (List UInt8))

/-- The floating-point numbers in a payload. -/
def floats : (kind : Kind) → kind.Carrier → List Binary64
  | float, x => [x]
  | _, _ => []

theorem faithful_float : Payload.Faithful float.floats where
  decode_encode h := h _ List.mem_cons_self
  isFinite_of_decode_encode h :=
    List.forall_mem_singleton.mpr (Value.isFinite_of_toBinary64?_ofBinary64 h)
  isFinite_of_decode h := List.forall_mem_singleton.mpr (Value.isFinite_of_toBinary64? h)
  isFinite_of_absent h := nomatch h

theorem decode_encode_optionalText (payload : Option String) :
    Payload.decode? (Payload.encode payload) = some payload := by
  cases payload with
  | none => rfl
  | some text => rfl

theorem decode_encode_byte (payload : UInt8) :
    Payload.decode? (Payload.encode payload) = some payload := by
  show ((Value.ofInt payload.toNat).toNatBelow? UInt8.size).map UInt8.ofNat = some payload
  rw [Value.toNatBelow?_ofInt payload.toNat_lt_size, Option.map_some, UInt8.ofNat_toNat]

theorem decode_encode_word (payload : Int64) :
    Payload.decode? (Payload.encode payload) = some payload := by
  have hrange : -Int.pow 2 63 ≤ payload.toInt ∧ payload.toInt < Int.pow 2 63 :=
    ⟨payload.le_toInt, payload.toInt_lt⟩
  show (Value.ofInt payload.toInt).toWord?.map Int64.ofInt = some payload
  rw [Value.toWord?, Value.toInt?_ofInt]
  simp only [if_pos hrange, Option.map_some, Int64.ofInt_toInt]

theorem decode_encode_bytes (payload : List UInt8) :
    Payload.decode? (Payload.encode payload) = some payload :=
  Value.toList?_array fun byte _ => decode_encode_byte byte

/-- Every kind of payload is read as it was written. -/
theorem faithful (kind : Kind) : Payload.Faithful kind.floats := by
  cases kind with
  | text => exact Payload.faithful_of_decode_encode fun _ => rfl
  | optionalText => exact Payload.faithful_of_decode_encode decode_encode_optionalText
  | byte => exact Payload.faithful_of_decode_encode decode_encode_byte
  | word => exact Payload.faithful_of_decode_encode decode_encode_word
  | float => exact faithful_float
  | flag => exact Payload.faithful_of_decode_encode fun _ => rfl
  | unit => exact Payload.faithful_of_decode_encode fun _ => rfl
  | bytes => exact Payload.faithful_of_decode_encode decode_encode_bytes

end Kind

end Json

open Json (Kind Payload Value)

/-! ## Statistics -/

theorem Stats.ofJson?_toJson (stats : Stats) : ofJson? stats.toJson = some stats := by
  have hfields : stats.toJson.fields? keys false =
      some (stats.counts.map fun count => some (Value.ofUInt64 count)) := by
    rfl
  rw [ofJson?, hfields]
  simp only [counts, List.map_cons, List.map_nil, List.mapM_cons, List.mapM_nil,
    Option.bind_eq_bind, Option.bind_some, Value.toUInt64?_ofUInt64, Option.pure_def, ofCounts?]

/-! ## Events -/

namespace Event

variable {π : Type} {floats : π → List Binary64} {event : Event π}

/-- The floating-point numbers in an event: its priority and those in its payload. -/
def allFloats (floats : π → List Binary64) (event : Event π) : List Binary64 :=
  event.priority :: floats event.payload

variable [Payload π]

/-- The fields that an event has been read from. -/
theorem exists_of_ofJson? {value : Value} (h : ofJson? value = some event) :
    ∃ (priority timestamp : Value) (payload : Option Value),
      value.fields? keys false = some [some priority, some timestamp, payload] ∧
      priority.toBinary64? = some event.priority ∧
      payload.elim Payload.absent Payload.decode? = some event.payload := by
  rw [ofJson?] at h
  obtain ⟨fields, hfields, h⟩ := Option.bind_eq_some_iff.mp h
  split at h
  · rename_i priority timestamp payload
    have hread : (payload.elim Payload.absent Payload.decode?).bind (fun content =>
        priority.toBinary64?.bind fun x => timestamp.toUInt64?.bind fun time =>
          some ⟨x, time, content⟩) = some event := by
      cases payload with
      | none => exact h
      | some value => exact h
    obtain ⟨content, hcontent, hread⟩ := Option.bind_eq_some_iff.mp hread
    obtain ⟨x, hx, hread⟩ := Option.bind_eq_some_iff.mp hread
    obtain ⟨time, htime, hread⟩ := Option.bind_eq_some_iff.mp hread
    cases hread
    exact ⟨priority, timestamp, payload, hfields, hx, hcontent⟩
  · cases h

theorem ofJson?_toJson_of_legible (hfaithful : Payload.Faithful floats)
    (h : ∀ x ∈ event.allFloats floats, x.Legible) : ofJson? event.toJson = some event := by
  obtain ⟨hpriority, hpayload⟩ := List.forall_mem_cons.mp h
  have hfinite := Value.isFinite_of_toBinary64?_ofBinary64 hpriority
  rw [Binary64.Legible, Value.ofBinary64, if_pos hfinite] at hpriority
  exact ofJson?_toJson hfinite hpriority (hfaithful.decode_encode hpayload)

/-- An event whose text is read at all has only finite numbers in it. -/
theorem isFinite_of_ofJson?_toJson (hfaithful : Payload.Faithful floats) {read : Event π}
    (h : ofJson? event.toJson = some read) :
    ∀ x ∈ event.allFloats floats, x.isFinite = true := by
  have htoJson : event.toJson.fields? keys false =
      some [some (.ofBinary64 event.priority), some (.ofUInt64 event.timestamp),
        some (Payload.encode event.payload)] := by
    rfl
  obtain ⟨priority, timestamp, payload, hfields, hpriority, hpayload⟩ := exists_of_ofJson? h
  rw [htoJson] at hfields
  cases hfields
  exact List.forall_mem_cons.mpr ⟨Value.isFinite_of_toBinary64?_ofBinary64 hpriority,
    hfaithful.isFinite_of_decode_encode hpayload⟩

theorem isFinite_of_ofJson? (hfaithful : Payload.Faithful floats) {value : Value}
    (h : ofJson? value = some event) : ∀ x ∈ event.allFloats floats, x.isFinite = true := by
  obtain ⟨priority, timestamp, payload, -, hpriority, hpayload⟩ := exists_of_ofJson? h
  refine List.forall_mem_cons.mpr ⟨Value.isFinite_of_toBinary64? hpriority, ?_⟩
  cases payload with
  | none => exact hfaithful.isFinite_of_absent hpayload
  | some value => exact hfaithful.isFinite_of_decode hpayload

end Event

/-! ## Envelopes -/

namespace Envelope

variable {π : Type} {floats : π → List Binary64} {envelope : Envelope π}

/-- The floating-point numbers in an envelope. -/
def allFloats (floats : π → List Binary64) (envelope : Envelope π) : List Binary64 :=
  envelope.events.flatMap (Event.allFloats floats)

variable [Payload π]

theorem parse_toText (envelope : Envelope π) :
    Json.parse envelope.toText = some envelope.toJson :=
  Value.parse_render envelope.toJson

theorem ofText_eq_ok_iff {text : String} :
    ofText text = .ok envelope ↔ (Json.parse text).bind ofJson? = some envelope := by
  rw [ofText]
  cases (Json.parse text).bind (ofJson? : Value → Option (Envelope π)) with
  | none => exact ⟨nofun, nofun⟩
  | some read => rw [Except.ok.injEq, Option.some.injEq]

/-- Text that denotes no envelope is malformed. -/
theorem ofText_of_eq_none {text : String}
    (h : (Json.parse text).bind (ofJson? : Value → Option (Envelope π)) = none) :
    (ofText text : Except Error (Envelope π)) = .error .malformed := by
  rw [ofText, h]

theorem ofJson?_toJson_of_legible (hfaithful : Payload.Faithful floats)
    (h : ∀ x ∈ envelope.allFloats floats, x.Legible) :
    ofJson? envelope.toJson = some envelope := by
  have hevents : Value.toList? Event.ofJson? (.array (envelope.events.map Event.toJson)) =
      some envelope.events := by
    refine Value.toList?_array fun event hevent => ?_
    exact Event.ofJson?_toJson_of_legible hfaithful fun x hx =>
      h x (List.mem_flatMap.mpr ⟨event, hevent, hx⟩)
  rw [toJson, ofJson?, Stats.ofJson?_toJson, hevents]
  rfl

/-- The events of an envelope are read from an array. -/
theorem exists_of_ofJson? {value : Value} (h : ofJson? value = some envelope) :
    ∃ (stats : Value) (events : List Value), value = .array [stats, .array events] ∧
      events.mapM Event.ofJson? = some envelope.events := by
  unfold ofJson? at h
  split at h
  · rename_i stats events
    obtain ⟨account, haccount, h⟩ := Option.bind_eq_some_iff.mp h
    obtain ⟨items, hitems, h⟩ := Option.bind_eq_some_iff.mp h
    cases h
    cases events with
    | array values => exact ⟨stats, values, rfl, hitems⟩
    | _ => cases hitems
  · cases h

theorem isFinite_of_ofJson?_toJson (hfaithful : Payload.Faithful floats) {read : Envelope π}
    (h : ofJson? envelope.toJson = some read) :
    ∀ x ∈ envelope.allFloats floats, x.isFinite = true := by
  obtain ⟨stats, events, hvalue, hevents⟩ := exists_of_ofJson? h
  cases hvalue
  intro x hx
  obtain ⟨event, hevent, hx⟩ := List.mem_flatMap.mp hx
  obtain ⟨item, hitem⟩ := (Value.mapM_eq_some hevents).1 _ (List.mem_map_of_mem hevent)
  exact Event.isFinite_of_ofJson?_toJson hfaithful hitem x hx

theorem isFinite_of_ofJson? (hfaithful : Payload.Faithful floats) {value : Value}
    (h : ofJson? value = some envelope) :
    ∀ x ∈ envelope.allFloats floats, x.isFinite = true := by
  obtain ⟨stats, events, -, hevents⟩ := exists_of_ofJson? h
  intro x hx
  obtain ⟨event, hevent, hx⟩ := List.mem_flatMap.mp hx
  obtain ⟨item, -, hitem⟩ := (Value.mapM_eq_some hevents).2 event hevent
  exact Event.isFinite_of_ofJson? hfaithful hitem x hx

/-- The text of an envelope is always well formed.  If its numbers are read back as they are, as
far as they are finite, then the text is read as the same envelope if and only if all of them are
finite, and is refused if one is not.  An envelope that has been read from some text, whatever that
is, can be written and read again. -/
theorem fidelity_of_read {kind : Kind} (envelope : Envelope kind.Carrier)
    (hread : ∀ x ∈ envelope.allFloats kind.floats, x.isFinite = true →
      (Json.Number.ofBinary64 x).toBinary64? = some x) :
    Json.parse envelope.toText = some envelope.toJson ∧
    (ofText envelope.toText = .ok envelope ↔
      ∀ x ∈ envelope.allFloats kind.floats, x.isFinite = true) ∧
    ((∃ x ∈ envelope.allFloats kind.floats, x.isFinite = false) → ∃ detail : String,
      (ofText envelope.toText : Except Error (Envelope kind.Carrier)) =
        .error (.serialization detail)) ∧
    ∀ text : String, ofText text = .ok envelope → ofText envelope.toText = .ok envelope := by
  have hfaithful := kind.faithful
  have hwhole : (∀ x ∈ envelope.allFloats kind.floats, x.isFinite = true) →
      ofText envelope.toText = .ok envelope := by
    intro hfinite
    have hjson := ofJson?_toJson_of_legible hfaithful fun x hx =>
      Binary64.legible_of_isFinite (hfinite x hx) (hread x hx (hfinite x hx))
    rw [ofText_eq_ok_iff, parse_toText, Option.bind_some, hjson]
  refine ⟨parse_toText envelope, ⟨fun hok => ?_, hwhole⟩, ?_, fun text htext => hwhole ?_⟩
  · rw [ofText_eq_ok_iff, parse_toText, Option.bind_some] at hok
    exact isFinite_of_ofJson?_toJson hfaithful hok
  · rintro ⟨x, hx, hinfinite⟩
    refine ⟨_, ofText_of_eq_none ?_⟩
    rw [parse_toText, Option.bind_some]
    refine Option.eq_none_iff_forall_ne_some.mpr fun read hjson => ?_
    rw [isFinite_of_ofJson?_toJson hfaithful hjson x hx] at hinfinite
    cases hinfinite
  · obtain ⟨value, -, hvalue⟩ := Option.bind_eq_some_iff.mp (ofText_eq_ok_iff.mp htext)
    exact isFinite_of_ofJson? hfaithful hvalue

theorem fidelity_of_read_negativeZero :
    let tenth : Binary64 := ⟨0x3fb999999999999a⟩
    let negativeZero : Binary64 := ⟨0x8000000000000000⟩
    let quietNaN : Binary64 := ⟨0x7ff8000000000000⟩
    let stats : Stats := ⟨0xffffffffffffffff, 2, 0xfffffffffffffffd, 0, 1, 0⟩
    let whole : Envelope Kind.float.Carrier :=
      ⟨stats, [⟨negativeZero, 0xffffffffffffffff, tenth⟩, ⟨tenth, 0, negativeZero⟩]⟩
    let part : Envelope Kind.optionalText.Carrier :=
      ⟨stats, [⟨tenth, 1, some "\"\u0001é"⟩, ⟨quietNaN, 2, none⟩]⟩
    ofText whole.toText = .ok whole ∧
      ∃ detail : String, (ofText part.toText : Except Error (Envelope Kind.optionalText.Carrier)) =
        .error (.serialization detail) := by
  intro tenth negativeZero quietNaN stats whole part
  have hwhole := (fidelity_of_read whole (by decide +kernel)).2.1
  have hpart := (fidelity_of_read part (by decide +kernel)).2.2.1
  exact ⟨hwhole.mpr (by decide +kernel), hpart (by decide +kernel)⟩

end Envelope

end PrioritySampling
