import EngineConsole.Desk.Basic
import EngineConsole.Engine.Http
import EngineConsole.Proofs.EngineAnswers
import EngineConsole.Proofs.ImportDocument
import EngineConsole.Proofs.Text.Decoding
import EngineConsole.Proofs.Text.Words

/-!
# What becomes of a response

The status of a response is judged before its body, and the body only if it is asked for. A request
fails in one of three ways, each told by what arrived, and otherwise it delivers what the body
holds. A load replaces the configuration and the form if it delivers one; else both stay, and the
operator is alerted unless the server refused.
-/

set_option autoImplicit false

namespace EngineConsole

/-! ## Bodies -/

namespace Json

variable {α : Type} {valueOf? : Scalar → Option α} {Stands : Tree → α → Prop}
  {member : Catalog α → String → Input → Except Flaw (Catalog α × Input)}

/-- Bytes are those of a flat mapping: a document with an object of which every member gives an
entry. The last one of each name counts. -/
def Holds (Stands : Tree → α → Prop) (body : List UInt8) (c : Catalog α) : Prop :=
  ∃ text members entries, body = Text.encode text ∧ IsDocument text.toList (.object members) ∧
    List.Forall₂ (Gives Stands) members entries ∧ ∀ key, c.get? key = entries.reverse.lookup key

theorem ReadsScalars.decode_eq_ok_iff (reads : ReadsScalars member (enter valueOf?))
    (tells : Tells valueOf? Stands) (body : List UInt8) (c : Catalog α) :
    object member .empty (Text.decode body) = .ok c ↔ Holds Stands body c := by
  rw [reads.eq_ok_iff tells]
  simp only [Holds, Text.decode_eq_glyphs_iff, Catalog.eq_ofList_iff]

end Json

theorem Config.read_decode_iff {body : List UInt8} {c : Config} :
    Config.read (Text.decode body) = .ok c ↔ Json.Holds (Config.Stands Config.Read) body c :=
  Config.readsScalars_member.decode_eq_ok_iff Config.tells_valueOf body c

theorem Counts.read_decode_iff {body : List UInt8} {c : Counts} :
    Counts.read (Text.decode body) = .ok c ↔ Json.Holds Counts.Stands body c :=
  Counts.readsScalars_member.decode_eq_ok_iff Counts.tells_valueOf body c

/-! ## Requests -/

def Completion.failure? : Completion → Option Failure
  | .configLoaded (.error f) => some f
  | .configSaved _ (.error f) => some f
  | .statsFetched (.error f) => some f
  | .statsCleared (.error f) => some f
  | .toggleFinished (.error f) => some f
  | .engineStatus (.error f) => some f
  | _ => none

namespace Http

/-- What a request delivers when it is answered with a body. -/
inductive Delivers : Request → List UInt8 → Completion → Prop
  | config {body : List UInt8} {c : Config}
      (holds : Json.Holds (Config.Stands Config.Read) body c) :
      Delivers .loadConfig body (.configLoaded (.ok c))
  | counts {body : List UInt8} {c : Counts} (holds : Json.Holds Counts.Stands body c) :
      Delivers .fetchStats body (.statsFetched (.ok c))
  | status {body : List UInt8} {s : EngineStatus}
      (holds : EngineStatus.read (Text.decode body) = .ok s) :
      Delivers .askStatus body (.engineStatus (.ok s))
  | saved (submitted : Config) (body : List UInt8) :
      Delivers (.saveConfig submitted) body (.configSaved submitted (.ok ()))
  | cleared (body : List UInt8) : Delivers .clearStats body (.statsCleared (.ok ()))
  | started (body : List UInt8) : Delivers .start body (.toggleFinished (.ok ()))
  | stopped (body : List UInt8) : Delivers .stop body (.toggleFinished (.ok ()))

section

variable {r : Request} {body : List UInt8} {completion : Completion}

theorem Delivers.answered (delivers : Delivers r body completion) :
    r.answered (Text.decode body) = completion ∧ completion.failure? = none := by
  cases delivers with
  | config holds =>
      refine ⟨?_, rfl⟩
      rw [Request.answered, Config.read_decode_iff.mpr holds]
      rfl
  | counts holds =>
      refine ⟨?_, rfl⟩
      rw [Request.answered, Counts.read_decode_iff.mpr holds]
      rfl
  | status holds =>
      refine ⟨?_, rfl⟩
      rw [Request.answered, holds]
      rfl
  | saved | cleared | started | stopped => exact ⟨rfl, rfl⟩

/-- An answer delivers something, or it cannot be decoded. -/
theorem delivers_or_undecodable (r : Request) (body : List UInt8) :
    Delivers r body (r.answered (Text.decode body)) ∨
      ∃ flaw, r.answered (Text.decode body) = r.failed (.undecodable r.endpoint.path flaw) := by
  cases r with
  | loadConfig =>
      rw [Request.answered]
      cases read : Config.read (Text.decode body) with
      | error flaw => exact .inr ⟨flaw, rfl⟩
      | ok c => exact .inl (.config (Config.read_decode_iff.mp read))
  | fetchStats =>
      rw [Request.answered]
      cases read : Counts.read (Text.decode body) with
      | error flaw => exact .inr ⟨flaw, rfl⟩
      | ok c => exact .inl (.counts (Counts.read_decode_iff.mp read))
  | askStatus =>
      rw [Request.answered]
      cases read : EngineStatus.read (Text.decode body) with
      | error flaw => exact .inr ⟨flaw, rfl⟩
      | ok s => exact .inl (.status read)
  | saveConfig submitted => exact .inl (.saved submitted body)
  | clearStats => exact .inl (.cleared body)
  | start => exact .inl (.started body)
  | stop => exact .inl (.stopped body)

/-- A status arrives as it was written. -/
theorem delivers_compact (s : EngineStatus) :
    Delivers .askStatus (Text.encode s.compact) (.engineStatus (.ok s)) := by
  refine .status ?_
  rw [Text.decode_encode]
  exact EngineStatus.parse_compact s

theorem failure?_failed (r : Request) (f : Failure) : (r.failed f).failure? = some f := by
  cases r <;> rfl

theorem delivers_iff : Delivers r body completion ↔
    r.answered (Text.decode body) = completion ∧ completion.failure? = none := by
  refine ⟨Delivers.answered, ?_⟩
  rintro ⟨rfl, succeeds⟩
  rcases delivers_or_undecodable r body with delivers | ⟨flaw, failed⟩
  · exact delivers
  · rw [failed, failure?_failed] at succeeds
    cases succeeds

end

/-! ## Responses -/

/-- A reason that is told of bytes: what they fall into, each stray shown by one replacement
character, and without the blanks around it. -/
def Tells (body : List UInt8) (reason : String) : Prop :=
  ∃ gs before after, Text.FallsInto body gs ∧
    gs.map Text.Glyph.shown = before ++ reason.toList ++ after ∧ Text.IsGap before ∧
      Text.IsGap after ∧ Text.IsTight reason.toList

/-- Bytes tell one reason only: there is one way for them to fall apart, and one text without the
blanks around it. -/
theorem tells_iff {body : List UInt8} {reason : String} :
    Tells body reason ↔ reason = Text.trimmed (Text.decodeLossy body) := by
  rw [Text.trimmed, Text.decodeLossy, String.toList_ofList]
  constructor
  · rintro ⟨gs, before, after, fallen, whole, gap, gap', tight⟩
    rw [Text.decode_eq_iff.mpr fallen, whole, Text.trim_padded tight gap gap',
      String.ofList_toList]
  · rintro rfl
    obtain ⟨before, after, gap, gap', whole⟩ :=
      Text.exists_padding ((Text.decode body).map Text.Glyph.shown)
    refine ⟨_, before, after, Text.fallsInto_decode body, ?_, gap, gap', ?_⟩
    · rwa [String.toList_ofList]
    · rw [String.toList_ofList]
      exact Text.tight_trim _

/-- A status that means success. -/
def Succeeds (status : Nat) : Prop :=
  200 ≤ status ∧ status ≤ 299

theorem isSuccess_iff {status : Nat} : isSuccess status = true ↔ Succeeds status := by
  simp [isSuccess, Succeeds]

section

variable {status : Nat} (body : List UInt8)

theorem outcome_of_succeeds (r : Request) (succeeds : Succeeds status) :
    outcome r (.ok ⟨status, body⟩) = r.answered (Text.decode body) :=
  if_pos (isSuccess_iff.mpr succeeds)

theorem outcome_of_not_succeeds (r : Request) (fails : ¬Succeeds status) :
    outcome r (.ok ⟨status, body⟩) = r.failed
      (.refused r.endpoint.path status (Text.trimmed (Text.decodeLossy body))) :=
  if_neg fun success => fails (isSuccess_iff.mp success)

/-- A response whose status goes with a body has not arrived before all of that has. -/
theorem arrived_cut (final : 200 ≤ status) (known : status ≤ 999) (content : status ≠ 204)
    (changed : status ≠ 304) : arrived status body false = .error "the body is cut off" := by
  unfold arrived
  rw [if_neg (by omega), if_neg (by omega), if_neg Bool.false_ne_true]

end

/-- The operator is alerted once, to an error, and nothing else happens. -/
def Alarms (desk : Desk) (message : String) (result : Desk × List Effect) : Prop :=
  ∃ alert : Alert, alert.kind = .error ∧ alert.message = message ∧
    result = ({ desk with alerts := desk.alerts.add alert },
      [.show (.alert alert), .expireAfter desk.alerts.ttl alert.id])

theorem alarms_raise (desk : Desk) (m : Moment) (message : String) :
    Alarms desk message (desk.raise m .error message) :=
  ⟨desk.alerts.upcoming m.now .error message, rfl, rfl, rfl⟩

/-- A request fails as unreachable without a response or with one that is cut off, as refused with
the one reason that the body tells if its status is not a success, whatever the body holds, and as
undecodable if its status is one but the body that it asked for holds nothing of the kind. Otherwise
it delivers what the body holds, or that it was done; a status arrives as it was written. So a load
replaces the configuration and the form if it was answered with success and a flat mapping, and else
leaves both; the operator is alerted once, or not at all if the server refused. -/
theorem responses_are_judged_by_status_first :
    (∀ (r : Request) reason, outcome r (.error reason) =
      r.failed (.unreachable r.endpoint.path reason)) ∧
    (∀ (r : Request) status body, 200 ≤ status → status ≤ 999 → status ≠ 204 → status ≠ 304 →
      ∃ reason, outcome r (arrived status body false) =
        r.failed (.unreachable r.endpoint.path reason)) ∧
    (∀ (r : Request) status body, ¬Succeeds status →
      ∃ reason, (∀ other, Tells body other ↔ other = reason) ∧
        outcome r (.ok ⟨status, body⟩) = r.failed (.refused r.endpoint.path status reason)) ∧
    (∀ (r : Request) status body, Succeeds status →
      (∀ completion, outcome r (.ok ⟨status, body⟩) = completion ∧ completion.failure? = none ↔
        Delivers r body completion) ∧
      ((∀ completion, ¬Delivers r body completion) → ∃ flaw,
        outcome r (.ok ⟨status, body⟩) = r.failed (.undecodable r.endpoint.path flaw))) ∧
    (∀ s : EngineStatus, Delivers .askStatus (Text.encode s.compact) (.engineStatus (.ok s))) ∧
    ∀ (desk : Desk) m,
      (∀ status body c, Succeeds status → Json.Holds (Config.Stands Config.Read) body c →
        desk.handle m (outcome .loadConfig (.ok ⟨status, body⟩)) =
          ({ desk with config := c, form := desk.form.fill c }, [])) ∧
      (∀ status body, ¬Succeeds status →
        desk.handle m (outcome .loadConfig (.ok ⟨status, body⟩)) = (desk, [])) ∧
      (∀ status body, Succeeds status → (∀ c, ¬Json.Holds (Config.Stands Config.Read) body c) →
        Alarms desk "Failed to load configuration"
          (desk.handle m (outcome .loadConfig (.ok ⟨status, body⟩)))) ∧
      ∀ reason, Alarms desk "Failed to load configuration"
        (desk.handle m (outcome .loadConfig (.error reason))) := by
  refine ⟨fun r reason => rfl, ?_, ?_, ?_, delivers_compact, fun desk m => ⟨?_, ?_, ?_, ?_⟩⟩
  · intro r status body final known content changed
    rw [arrived_cut body final known content changed]
    exact ⟨_, rfl⟩
  · intro r status body fails
    exact ⟨_, fun _ => tells_iff, outcome_of_not_succeeds body r fails⟩
  · intro r status body succeeds
    rw [outcome_of_succeeds body r succeeds]
    refine ⟨fun completion => delivers_iff.symm, fun nothing => ?_⟩
    exact (delivers_or_undecodable r body).resolve_left (nothing _)
  · intro status body c succeeds holds
    rw [outcome_of_succeeds body _ succeeds, (Delivers.config holds).answered.1]
    rfl
  · intro status body fails
    rw [outcome_of_not_succeeds body _ fails]
    rfl
  · intro status body succeeds nothing
    rw [outcome_of_succeeds body _ succeeds]
    rcases delivers_or_undecodable .loadConfig body with delivers | ⟨flaw, failed⟩
    · generalize Request.loadConfig.answered (Text.decode body) = completion at delivers
      cases delivers with
      | config holds => exact absurd holds (nothing _)
    · rw [failed]
      exact alarms_raise desk m _
  · intro reason
    exact alarms_raise desk m _

/-- A flat mapping is a reason under an error status and is loaded under another one, where a byte
that is no text alerts the operator; and an answer to a start that is cut off is none. -/
theorem mapping_in_an_error_is_not_loaded :
    let body := Text.encode "\x7b\x7d"
    let desk := Desk.fresh .empty 20 5000
    let m : Moment := ⟨0, "12:00"⟩
    outcome .loadConfig (.ok ⟨500, body⟩) =
      .configLoaded (.error (.refused "/api/config" 500 "\x7b\x7d")) ∧
    desk.handle m (outcome .loadConfig (.ok ⟨500, body⟩)) = (desk, []) ∧
    desk.handle m (outcome .loadConfig (.ok ⟨200, body⟩)) =
      ({ desk with config := .empty, form := desk.form.fill .empty }, []) ∧
    Alarms desk "Failed to load configuration"
      (desk.handle m (outcome .loadConfig (.ok ⟨200, [0xFF]⟩))) ∧
    ∃ reason, outcome .start (arrived 500 body false) =
      .toggleFinished (.error (.unreachable "/api/start" reason)) := by
  intro body desk m
  obtain ⟨-, cut, refused, -, -, loads⟩ := responses_are_judged_by_status_first
  obtain ⟨replaced, kept, alarmed, -⟩ := loads desk m
  have error : ¬Succeeds 500 := fun succeeds => absurd succeeds.2 (by decide)
  have success : Succeeds 200 := ⟨by decide, by decide⟩
  have mapping : Json.Holds (Config.Stands Config.Read) body .empty :=
    ⟨"\x7b\x7d", [], [], rfl, .tight (.emptyObject Json.blank_nil), .nil, fun _ => rfl⟩
  have tells : Tells body "\x7b\x7d" :=
    ⟨_, [], [], Text.decode_eq_iff.mp (Text.decode_encode _), rfl, nofun, nofun, by decide⟩
  have noText (c : Config) : ¬Json.Holds (Config.Stands Config.Read) [0xFF] c := by
    rintro ⟨text, -, -, same, -⟩
    have decoded := Text.decode_eq_glyphs_iff.mpr same
    have stray : Text.decode [0xFF] = [.stray 1] := by
      rw [Text.decode_alone (by decide) (by decide), Text.decode.eq_def]
    rw [stray, Text.glyphs] at decoded
    cases chars : text.toList <;> rw [chars] at decoded <;> cases decoded
  obtain ⟨reason, only, failed⟩ := refused .loadConfig 500 body error
  rw [← (only _).mp tells] at failed
  exact ⟨failed, kept 500 body error,
    replaced 200 body .empty success mapping, alarmed 200 [0xFF] success noText,
    cut .start 500 body (by decide) (by decide) (by decide) (by decide)⟩

end Http

end EngineConsole
