import BuildPipeline.Proofs.Wire.Rereading

/-!
The types whose values travel as texts, and what a text keeps of a value: everything but the run
results of phases, which are never sent (`Format.decode_encode`). A text that was read need not be
the one that is written for its value; the one that is written stays the same from then on.
-/

namespace BuildPipeline.Wire

open Json (Draft inRange inRange_of_le)

/-! ## Texts -/

/-- A text of a value is decoded to what is read of the tree of the value. -/
theorem Codec.decode_of_isText {α : Type} (codec : Codec α) {j : Json} {text : String}
    (isText : j.IsText text) :
    codec.decode text.toUTF8.data.toList = codec.read .streamed maxDepth j.draft := by
  rw [Codec.decode, Draft.ofBytes_of_isText isText]
  exact bind_pure (codec.read .streamed maxDepth j.draft)

theorem Codec.read_of_decode {α : Type} {codec : Codec α} {bytes : List UInt8} {v : α}
    (decoded : codec.decode bytes = .ok v) :
    ∃ draft, codec.read .streamed maxDepth draft = .ok v := by
  rw [Codec.decode] at decoded
  generalize Draft.ofBytes bytes = parsed at decoded
  obtain ⟨draft, trailing⟩ := parsed
  obtain ⟨w, read, rest⟩ := bind_eq_ok_iff.1 decoded
  cases trailing with
  | true => cases rest
  | false =>
      cases rest
      exact ⟨draft, read⟩

/-- A type whose values travel as texts. -/
inductive Format where
  | status
  | capability
  | eventKind
  | repositoryKind
  | buildId
  | token
  | phase
  | phasePatch
  | workspace
  | repository
  | build
  | command
  | event
  | request
  | response
  deriving DecidableEq

namespace Format

/-- The values of the format. -/
def Value : Format → Type
  | status => Status
  | capability => Capability
  | eventKind => EventKind
  | repositoryKind => RepositoryKind
  | buildId => BuildId
  | token => Token
  | phase => Phase
  | phasePatch => PhasePatch
  | workspace => Workspace
  | repository => Repository
  | build => Build
  | command => Command
  | event => Event
  | request => Request
  | response => Response

/-- How the values of the format are written and read. -/
def codec : (format : Format) → Codec format.Value
  | status => Wire.status
  | capability => Wire.capability
  | eventKind => Wire.eventKind
  | repositoryKind => Wire.repositoryKind
  | buildId => Wire.buildId
  | token => Wire.token
  | phase => Wire.phase
  | phasePatch => Wire.phasePatch
  | workspace => Wire.workspace
  | repository => Wire.repository
  | build => Wire.build
  | command => Wire.command
  | event => Wire.event
  | request => Wire.request
  | response => Wire.response

/-- A value as it is sent: its phases are without run results. -/
def sent : (format : Format) → format.Value → format.Value
  | phase => Phase.sent
  | build => Build.sent
  | command => Command.sent
  | event => Event.sent
  | request => Request.sent
  | response => Response.sent
  | status | capability | eventKind | repositoryKind | buildId | token | phasePatch | workspace
  | repository => id

/-- Whether values are taken into a buffer before they are read, because a tag tells their
variant. -/
def isTagged : Format → Bool
  | request | response => true
  | _ => false

/-- The forms in which a value may be written. -/
def Form : (format : Format) → format.Value → Json → Prop
  | request => Tagged.Form requestVariants
  | response => Tagged.Form responseVariants
  | format => format.codec.Form

/-- A field, or the tag, stands twice in an object. -/
def Doubled : Format → Json → Prop
  | request => Tagged.Doubled requestVariants
  | response => Tagged.Doubled responseVariants
  | format => format.codec.Doubled

/-! ## Reading and writing -/

theorem form_write (format : Format) (v : format.Value) (words : (format.codec.write v).InWords) :
    format.Form (format.sent v) (format.codec.write v) := by
  cases format with
  | status => exact writes_status v words
  | capability => exact writes_capability v words
  | eventKind => exact writes_eventKind v words
  | repositoryKind => exact writes_repositoryKind v words
  | buildId => exact writes_buildId v words
  | token => exact writes_token v words
  | phase => exact writes_phase v words
  | phasePatch => exact writes_phasePatch v words
  | workspace => exact writes_workspace v words
  | repository => exact writes_repository v words
  | build => exact writes_build v words
  | command => exact writes_command v words
  | event => exact writes_event v words
  | request => exact form_request v words
  | response => exact form_response v words

theorem read_of_form {format : Format} {v : format.Value} {j : Json} (form : format.Form v j)
    (shallow : j.depth ≤ maxDepth) (range : format.isTagged → ∀ n ∈ j.numbers, inRange n) :
    format.codec.read .streamed maxDepth j.draft = .ok v := by
  cases format with
  | request => exact Tagged.Form.read form (by decide) .streamed shallow (range rfl)
  | response => exact Tagged.Form.read form (by decide) .streamed shallow (range rfl)
  | _ => exact Codec.Form.read form .streamed shallow

theorem form_of_read {format : Format} {draft : Draft} {v : format.Value}
    (read : format.codec.read .streamed maxDepth draft = .ok v) :
    format.Form v (format.codec.write v) ∧ (format.codec.write v).Fits maxDepth := by
  cases format with
  | status => exact rereads_status _ _ _ read
  | capability => exact rereads_capability _ _ _ read
  | eventKind => exact rereads_eventKind _ _ _ read
  | repositoryKind => exact rereads_repositoryKind _ _ _ read
  | buildId => exact rereads_buildId _ _ _ read
  | token => exact rereads_token _ _ _ read
  | phase => exact rereads_phase _ _ _ read
  | phasePatch => exact rereads_phasePatch _ _ _ read
  | workspace => exact rereads_workspace _ _ _ read
  | repository => exact rereads_repository _ _ _ _ read
  | build => exact rereads_build (by decide) _ _ _ read
  | command => exact rereads_command (by decide) _ _ _ read
  | event => exact rereads_event _ _ _ read
  | request => exact Tagged.form_of_read (rereads_requestVariants (by decide)) read
  | response => exact Tagged.form_of_read (rereads_responseVariants (by decide)) read

theorem refused_of_doubled {format : Format} {j : Json} (doubled : format.Doubled j)
    {v : format.Value} : format.codec.read .streamed maxDepth j.draft ≠ .ok v := by
  cases format with
  | request => exact Tagged.Doubled.refused doubled (by decide)
  | response => exact Tagged.Doubled.refused doubled (by decide)
  | _ => exact Codec.Doubled.refused doubled

/-- Run results are not written. -/
theorem write_sent (format : Format) (v : format.Value) :
    format.codec.write (format.sent v) = format.codec.write v := by
  cases format with
  | build => exact write_build_sent v
  | command => exact write_command_sent v
  | event => exact write_event_sent v
  | request => exact write_request_sent v
  | response => exact write_response_sent v
  | _ => rfl

/-- What is written is decoded to the value as it is sent. -/
theorem decode_write {format : Format} {v w : format.Value}
    (form : format.Form w (format.codec.write v)) (fits : (format.codec.write v).Fits maxDepth) :
    format.codec.decode (format.codec.encode v).toUTF8.data.toList = .ok w :=
  (format.codec.decode_of_isText (Json.isText_render _)).trans
    (read_of_form form fits.1 fun _ n number => inRange_of_le (fits.2 n number))

/-- A value whose numbers have 64 bits, and whose text does not nest too deep, is decoded from its
text as it is sent. Whatever bytes a value was decoded from, its text is decoded to the same value,
and is then the text of this value. -/
theorem decode_encode (format : Format) :
    (∀ v : format.Value, (format.codec.write v).InWords →
      (format.codec.write v).depth ≤ maxDepth →
        format.codec.decode (format.codec.encode v).toUTF8.data.toList = .ok (format.sent v) ∧
        format.codec.encode (format.sent v) = format.codec.encode v) ∧
    ∀ (bytes : List UInt8) (v : format.Value), format.codec.decode bytes = .ok v →
      format.codec.decode (format.codec.encode v).toUTF8.data.toList = .ok v ∧
        (format.codec.decode (format.codec.encode v).toUTF8.data.toList).map format.codec.encode =
          .ok (format.codec.encode v) := by
  refine ⟨fun v words shallow => ⟨?_, ?_⟩, fun bytes v decoded => ?_⟩
  · exact decode_write (form_write format v words) ⟨shallow, words⟩
  · exact congrArg Json.render (write_sent format v)
  · obtain ⟨draft, read⟩ := Codec.read_of_decode decoded
    obtain ⟨form, fits⟩ := form_of_read read
    have again := decode_write form fits
    exact ⟨again, map_eq_ok_iff.2 ⟨v, again, rfl⟩⟩

/-- A command on a build of the year -44, with a quote and a control character in its texts, a
repository of two levels, and a phase that has run. -/
def sampleCommand : Command where
  kind := .runPhase
  token := ⟨18446744073709551615⟩
  build :=
    { id := ⟨"b\"1\x01"⟩
      phases := [{ id := "p", runResults := [.done, .failed] }]
      repository := { kind := .multiGit, children := [{ kind := .git, uri := some "u" }] }
      createdAt := ⟨⟨-44, 3, 15, by decide⟩, 11, 59, 60, 120000000, by decide⟩ }
  phase := some { id := "p", runResults := [.inFlight] }

theorem decode_encode_sampleCommand :
    (command.codec.write sampleCommand).InWords ∧
      (command.codec.write sampleCommand).depth ≤ maxDepth ∧
      command.codec.decode (command.codec.encode sampleCommand).toUTF8.data.toList =
        .ok sampleCommand.sent ∧
      command.codec.decode (command.codec.encode sampleCommand.sent).toUTF8.data.toList =
        .ok sampleCommand.sent := by
  have words : (command.codec.write sampleCommand).InWords := by
    have numbers : (command.codec.write sampleCommand).numbers = [18446744073709551615, 0, 0] := by
      decide
    rw [Json.InWords, numbers]
    decide
  have shallow : (command.codec.write sampleCommand).depth ≤ maxDepth := by decide
  have first := ((decode_encode command).1 sampleCommand words shallow).1
  exact ⟨words, shallow, first, ((decode_encode command).2 _ _ first).1⟩

end Format
end BuildPipeline.Wire
