import BuildTargets.Json.Codec
import BuildTargets.Proofs.Json.RoundTrip

/-!
# Records are read back

A record that is written in Json is read back as it was, as long as its offsets have 64 bits.
-/

namespace BuildTargets

open Json

theorem mapM_read_map {α β : Type} (write : α → β) (read : β → Option α)
    (h : ∀ value, read (write value) = some value) (values : List α) :
    (values.map write).mapM read = some values := by
  induction values with
  | nil => rfl
  | cons value values ih =>
    rw [List.map_cons, List.mapM_cons, h, ih]
    rfl

namespace Json.Value

@[simp] theorem text?_ofText (text : String) : (ofText text).text? = some text := rfl

theorem word?_integer {value : Nat} (h : value < UInt64.size) :
    (integer value).word? = some value := by
  rw [UInt64.size] at h
  have inside : (0 : Int) ≤ value ∧ (value : Int) ≤ 18446744073709551615 := by omega
  rw [word?, integer?, if_pos inside]
  simp

@[simp] theorem plain_ofText (text : String) : (ofText text).Plain := trivial

@[simp] theorem plain_integer (value : Int) : (integer value).Plain := trivial

theorem plain_ofMembers {members : List (String × Value)} :
    (ofMembers members).Plain ↔ ∀ member ∈ members, member.2.Plain := by
  show PlainMembers (members.map _) ↔ _
  induction members with
  | nil => simp [PlainMembers]
  | cons member members ih => simp [PlainMembers, Quoted.IsText, ih]

theorem integer?_integer {low high value : Int} (h : low ≤ value ∧ value ≤ high) :
    (integer value).integer? low high = some value := if_pos h

theorem list?_texts (texts : List String) :
    (array (texts.map ofText)).list? text? = some texts :=
  mapM_read_map ofText text? text?_ofText texts

@[simp] theorem plain_texts (texts : List String) : (array (texts.map ofText)).Plain := by
  show PlainElements _
  induction texts with
  | nil => trivial
  | cons text texts ih => exact ⟨trivial, ih⟩

@[simp] theorem plain_bool (value : Bool) : (bool value).Plain := trivial

theorem members?_ofMembers (members : List (String × Value)) :
    (ofMembers members).members? = some members := by
  rw [ofMembers, members?]
  apply mapM_read_map
  exact fun _ => rfl

theorem fields?_ofMembers (names : List String) (least : Nat) (members : List (String × Value)) :
    (ofMembers members).fields? names least = names.mapM fun name =>
      match members.filter fun member => member.1 == name with
      | [] => some none
      | [member] => some (some member.2)
      | _ => none := by
  have named := members?_ofMembers members
  unfold ofMembers at named ⊢
  unfold fields?
  dsimp only
  split
  · next broken => cases broken.symm.trans named
  · next listed =>
    cases listed.symm.trans named
    rfl

end Json.Value

namespace Path

@[simp] theorem ofJson?_toJson (path : Path) : ofJson? path.toJson = some path := rfl

end Path

namespace IncludeOrigin

/-- The offset of the directive has 64 bits. -/
def Fits (origin : IncludeOrigin) : Prop := origin.siteOffset < UInt64.size

instance (origin : IncludeOrigin) : Decidable origin.Fits :=
  inferInstanceAs (Decidable (_ < _))

theorem plain_toJson (origin : IncludeOrigin) : origin.toJson.Plain := by
  simp [toJson, Value.plain_ofMembers, Path.toJson]

theorem ofJson?_toJson {origin : IncludeOrigin} (fits : origin.Fits) :
    ofJson? origin.toJson = some origin := by
  have offset := Value.word?_integer fits
  simp [ofJson?, toJson, Value.ofMembers, Value.fields?, Value.members?, offset]

end IncludeOrigin

namespace RunRecord

/-- The offsets of the record have 64 bits. -/
def Fits (record : RunRecord) : Prop :=
  record.offset < UInt64.size ∧ ∀ origin ∈ record.includedFrom, origin.Fits

instance (record : RunRecord) : Decidable record.Fits :=
  inferInstanceAs (Decidable (_ ∧ _))

theorem plain_toJson (record : RunRecord) : record.toJson.Plain := by
  cases origin : record.includedFrom with
  | none => simp [toJson, Value.plain_ofMembers, Path.toJson, origin]
  | some origin' =>
    simp [toJson, Value.plain_ofMembers, Path.toJson, origin, origin'.plain_toJson]

theorem ofJson?_toJson {record : RunRecord} (fits : record.Fits) :
    ofJson? record.toJson = some record := by
  obtain ⟨runner, name, declaredIn, offset, includedFrom, command⟩ := record
  have word := Value.word?_integer fits.1
  cases includedFrom with
  | none =>
    simp [ofJson?, toJson, Value.ofMembers, Value.fields?, Value.members?, word, Value.nullable?]
  | some origin =>
    have nullable : origin.toJson.nullable? IncludeOrigin.ofJson? = some (some origin) := by
      show (IncludeOrigin.ofJson? origin.toJson).map some = _
      rw [IncludeOrigin.ofJson?_toJson (fits.2 origin rfl)]
      rfl
    simp [ofJson?, toJson, Value.ofMembers, Value.fields?, Value.members?, word, nullable]

theorem read_pretty_toJson {record : RunRecord} (fits : record.Fits) :
    (Value.read record.toJson.pretty).bind ofJson? = some record := by
  rw [Value.read_pretty record.plain_toJson]
  exact ofJson?_toJson fits

end RunRecord

namespace Action

theorem ofJson?_toJson (action : Action) : ofJson? action.toJson = some action := by
  cases action <;> rfl

end Action

namespace Placement

theorem ofJson?_toJson (placement : Placement) : ofJson? placement.toJson = some placement :=
  ofText?_text placement

end Placement

namespace Header

/-- The offsets of the header have 64 bits. -/
def Fits (header : Header) : Prop :=
  header.offset < UInt64.size ∧ header.headerOffset < UInt64.size

instance (header : Header) : Decidable header.Fits := inferInstanceAs (Decidable (_ ∧ _))

theorem plain_toJson (header : Header) : header.toJson.Plain := by
  simp [toJson, Value.plain_ofMembers]

theorem ofJson?_toJson {header : Header} (fits : header.Fits) :
    ofJson? header.toJson = some header := by
  have offset := Value.word?_integer fits.1
  have headerOffset := Value.word?_integer fits.2
  simp [ofJson?, toJson, Value.fields?_ofMembers, offset, headerOffset]

end Header

namespace Command

theorem plain_toJson (command : Command) : command.toJson.Plain := by
  simp [toJson, Value.plain_ofMembers, Path.toJson, Action.toJson]

theorem ofJson?_toJson (command : Command) : ofJson? command.toJson = some command := by
  simp [ofJson?, toJson, Value.fields?_ofMembers, Action.ofJson?_toJson]

end Command

namespace Outcome

theorem plain_toJson (outcome : Outcome) : outcome.toJson.Plain := by
  obtain ⟨_ | code⟩ := outcome <;> simp [toJson, Value.plain_ofMembers, Value.Plain]

theorem codeOfJson?_integer (code : Int32) :
    codeOfJson? (.integer code.toInt) = some code := by
  have inside := code.toInt_lt
  have above := code.le_toInt
  rw [codeOfJson?, Value.integer?_integer (by omega), Option.map_some, Int32.ofInt_toInt]

theorem ofJson?_toJson (outcome : Outcome) : ofJson? outcome.toJson = some outcome := by
  obtain ⟨_ | code⟩ := outcome
  · rfl
  · have read := codeOfJson?_integer code
    simp [ofJson?, toJson, Value.fields?_ofMembers, Value.nullable?, read]

end Outcome

namespace RunnerSettings

theorem plain_toJson (settings : RunnerSettings) : settings.toJson.Plain := by
  cases dry : settings.dryRunCommand <;> simp [toJson, Value.plain_ofMembers, dry]

theorem ofJson?_toJson (settings : RunnerSettings) : ofJson? settings.toJson = some settings := by
  obtain ⟨filePatterns, runCommand, _ | dryRunCommand⟩ := settings
  · simp [ofJson?, toJson, Value.fields?_ofMembers, Value.list?_texts, Value.nullable?]
  · have nullable :
        (Value.ofText dryRunCommand).nullable? Value.text? = some (some dryRunCommand) := rfl
    simp [ofJson?, toJson, Value.fields?_ofMembers, Value.list?_texts, nullable]

end RunnerSettings

namespace InlineSettings

theorem plain_toJson (settings : InlineSettings) : settings.toJson.Plain := by
  simp [toJson, Value.plain_ofMembers, Placement.toJson]

theorem ofJson?_toJson (settings : InlineSettings) : ofJson? settings.toJson = some settings := by
  obtain ⟨enabled, placement⟩ := settings
  simp [ofJson?, toJson, Value.fields?_ofMembers, Value.bool?, Placement.ofJson?_toJson]

end InlineSettings

namespace Settings

theorem plain_toJson (settings : Settings) : settings.toJson.Plain := by
  simp only [toJson, Value.plain_ofMembers, List.forall_mem_cons, List.forall_mem_map,
    Value.plain_texts, InlineSettings.plain_toJson, List.not_mem_nil]
  exact ⟨fun runner _ => runner.2.plain_toJson, trivial, trivial, nofun⟩

theorem runnersOfJson?_ofMembers (runners : Dictionary RunnerSettings)
    {write : String × RunnerSettings → String × Value}
    (written : ∀ runner, write runner = (runner.1, runner.2.toJson)) :
    runnersOfJson? (.ofMembers (runners.entries.map write)) = some runners := by
  rw [runnersOfJson?, Value.members?_ofMembers, Option.bind_eq_bind, Option.bind_some,
    mapM_read_map write _ _ runners.entries]
  · exact congrArg some runners.ofList_entries
  · intro runner
    simp [written, RunnerSettings.ofJson?_toJson]

theorem ofJson?_toJson (settings : Settings) : ofJson? settings.toJson = some settings := by
  obtain ⟨runners, excludedFolders, inlineRunner⟩ := settings
  simp [ofJson?, toJson, Value.fields?_ofMembers, Value.list?_texts,
    runnersOfJson?_ofMembers, InlineSettings.ofJson?_toJson]

end Settings

end BuildTargets
