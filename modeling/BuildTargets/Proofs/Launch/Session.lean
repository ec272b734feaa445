import BuildTargets.Proofs.Launch.Store

/-!
# Sessions

A session asks one operation of a launcher after the other, while settings, documents and outcomes
of commands may change from step to step. What its store holds and what its executor has received
follow from the launches of its steps: the commands that were rendered and, for a run, recorded.
-/

namespace BuildTargets

/-! ## Steps -/

/-- What a session acts on: what its store holds, and the commands its executor received, in
order. -/
structure Session (S : Type) where
  kept : S
  executed : List Command

inductive Operation where
  | render (target : Occurrence) (action : Action)
  | run (target : Occurrence)
  | dryRun (target : Occurrence)
  | execute (target : Occurrence) (action : Action)
  | lastTarget
  | rerun

/-- One operation, by the settings, documents and grammars of the moment; `outcome` says what
becomes of a command. -/
structure Step where
  settings : Settings
  documents : Path → Except Fault Document
  grammars : Grammars
  outcome : Command → Except Fault Outcome
  operation : Operation

inductive Answer where
  | command (result : Except Fault Command)
  | outcome (result : Except Fault Outcome)
  | target (result : Except Fault (Option Occurrence))
  | rerun (result : Except Fault (Option Outcome))

def faultOf? {α : Type} : Except Fault α → Option Fault
  | .error cause => some cause
  | .ok _ => none

def Answer.fault? : Answer → Option Fault
  | command result => faultOf? result
  | outcome result => faultOf? result
  | target result => faultOf? result
  | rerun result => faultOf? result

namespace Step

variable {S : Type}

def launcher (store : Store S) (step : Step) : Launcher (Session S) where
  settings := step.settings
  executor command session :=
    (step.outcome command, { session with executed := session.executed ++ [command] })
  save record session :=
    let (result, kept) := store.save record session.kept
    (result, { session with kept := kept })
  stored session := (store.stored session.kept, session)

def load (step : Step) (path : Path) (session : Session S) : Except Fault Document × Session S :=
  (step.documents path, session)

def perform (store : Store S) (step : Step) (session : Session S) : Answer × Session S :=
  let launcher := step.launcher store
  match step.operation with
  | .render target action => (.command (launcher.render target action), session)
  | .run target => (launcher.run target session).map .outcome id
  | .dryRun target => (launcher.dryRun target session).map .outcome id
  | .execute target action => (launcher.execute target action session).map .outcome id
  | .lastTarget => (launcher.lastTarget step.load step.grammars session).map .target id
  | .rerun => (launcher.rerun step.load step.grammars session).map .rerun id

def performAll (store : Store S) : List Step → Session S → Session S
  | [], session => session
  | step :: steps, session => performAll store steps (step.perform store session).2

/-! ## Launches -/

/-- A command that was rendered for a target, to be executed with a record of it or without. -/
structure Launch where
  target : Occurrence
  command : Command
  recorded : Bool

def Launch.record (launch : Launch) : RunRecord := .ofOccurrence launch.target launch.command.text

def Launch.action (launch : Launch) : Action := if launch.recorded then .run else .dryRun

/-- The target that is stored as the last one, found again in the documents of the step. -/
def last (store : Store S) (step : Step) (kept : S) : Except Fault (Option Occurrence) :=
  match store.stored kept with
  | .error cause => .error cause
  | .ok none => .ok none
  | .ok (some record) =>
    (record.restore (fun path () => (step.documents path, ())) step.grammars ()).1.map some

/-- The launch of a target by the settings of the step. -/
def launch (store : Store S) (step : Step) (target : Occurrence) (recorded : Bool) :
    Except Fault (Option Launch) :=
  ((step.launcher store).render target (if recorded then .run else .dryRun)).map fun command =>
    some ⟨target, command, recorded⟩

/-- What a step sets out to execute, if anything, or the fault that it meets before that: in loading
the record, in restoring the target or in rendering. -/
def prepare (store : Store S) (step : Step) (kept : S) : Except Fault (Option Launch) :=
  match step.operation with
  | .render target action => ((step.launcher store).render target action).map fun _ => none
  | .run target | .execute target .run => step.launch store target true
  | .dryRun target | .execute target .dryRun => step.launch store target false
  | .lastTarget => (step.last store kept).map fun _ => none
  | .rerun =>
    match step.last store kept with
    | .error cause => .error cause
    | .ok none => .ok none
    | .ok (some target) => step.launch store target true

/-- The launch that a step hands to its executor: one that is not recorded, or whose record could be
saved. -/
def launch? (store : Store S) (step : Step) (kept : S) : Option Launch :=
  match step.prepare store kept with
  | .ok (some launch) =>
    if launch.recorded then
      match (store.save launch.record kept).1 with
      | .ok () => some launch
      | .error _ => none
    else some launch
  | _ => none

def launches (store : Store S) : List Step → Session S → List Launch
  | [], _ => []
  | step :: steps, session =>
    (step.launch? store session.kept).toList ++
      launches store steps (step.perform store session).2

/-- Whether a step saves the record that it comes to save, if it comes to save one. -/
def saving? (store : Store S) (step : Step) (kept : S) : Option Bool :=
  match step.prepare store kept with
  | .ok (some launch) =>
    if launch.recorded then some (store.save launch.record kept).1.isOk else none
  | _ => none

/-- How the saves of some steps went, in order. -/
def savings (store : Store S) : List Step → Session S → List Bool
  | [], _ => []
  | step :: steps, session =>
    (step.saving? store session.kept).toList ++
      savings store steps (step.perform store session).2

/-! ## What a step does -/

variable {store : Store S} {step : Step} {session : Session S}

/-- What a step comes to: the fault that it ends in, if any, and the session after it. -/
def effect (store : Store S) (step : Step) (session : Session S) : Option Fault × Session S :=
  match step.prepare store session.kept with
  | .error cause => (some cause, session)
  | .ok none => (none, session)
  | .ok (some launch) =>
    let executed := session.executed ++ [launch.command]
    let fault? := faultOf? (step.outcome launch.command)
    if launch.recorded then
      match store.save launch.record session.kept with
      | (.error cause, after) => (some cause, { session with kept := after })
      | (.ok (), after) => (fault?, ⟨after, executed⟩)
    else (fault?, { session with executed := executed })

theorem restore_load (record : RunRecord) :
    record.restore step.load step.grammars session =
      ((record.restore (fun path () => (step.documents path, ())) step.grammars ()).1,
        session) := by
  unfold RunRecord.restore load
  cases step.grammars.get record.runner with
  | error cause => rfl
  | ok grammar =>
    dsimp only
    cases step.documents record.declaredIn with
    | error cause => rfl
    | ok document =>
      dsimp only
      cases record.findIn? ⟨document, grammar⟩ with
      | none => rfl
      | some target =>
        cases record.includedFrom with
        | none => rfl
        | some origin =>
          dsimp only
          cases step.documents origin.root with
          | error cause => rfl
          | ok root =>
            dsimp only
            split
            · rfl
            · cases step.documents origin.sitePath <;> rfl

theorem lastTarget_load : (step.launcher store).lastTarget step.load step.grammars session =
    (step.last store session.kept, session) := by
  have stored : (step.launcher store).stored session = (store.stored session.kept, session) := rfl
  rw [Launcher.lastTarget, stored, last]
  match store.stored session.kept with
  | .error cause => rfl
  | .ok none => rfl
  | .ok (some record) =>
    dsimp only
    rw [restore_load]
    cases (record.restore (fun path () => (step.documents path, ())) step.grammars ()).1 <;> rfl

theorem effect_run {target : Occurrence}
    (prepare : step.prepare store session.kept = step.launch store target true) :
    step.effect store session = ((step.launcher store).run target session).map faultOf? id := by
  rw [launch, if_pos rfl] at prepare
  unfold effect Launcher.run
  match rendered : (step.launcher store).render target .run with
  | .error cause =>
    rw [rendered] at prepare
    rw [prepare]
    rfl
  | .ok command =>
    rw [rendered] at prepare
    rw [prepare]
    dsimp only [Except.map]
    rw [if_pos rfl]
    match save : store.save (.ofOccurrence target command.text) session.kept with
    | (.error cause, after) =>
      have saved : (step.launcher store).save (.ofOccurrence target command.text) session =
          (.error cause, { session with kept := after }) := by
        simp [launcher, save]
      rw [saved]
      rfl
    | (.ok (), after) =>
      have saved : (step.launcher store).save (.ofOccurrence target command.text) session =
          (.ok (), { session with kept := after }) := by
        simp [launcher, save]
      rw [saved]
      rfl

theorem effect_dryRun {target : Occurrence}
    (prepare : step.prepare store session.kept = step.launch store target false) :
    step.effect store session = ((step.launcher store).dryRun target session).map faultOf? id := by
  rw [launch, if_neg Bool.false_ne_true] at prepare
  unfold effect Launcher.dryRun
  rw [prepare]
  cases (step.launcher store).render target .dryRun <;> rfl

theorem run_of_save {target : Occurrence} {command : Command} {after : S}
    (rendered : (step.launcher store).render target .run = .ok command)
    (save : store.save (.ofOccurrence target command.text) session.kept = (.ok (), after)) :
    (step.launcher store).run target session =
      (step.outcome command, ⟨after, session.executed ++ [command]⟩) := by
  have saved : (step.launcher store).save (.ofOccurrence target command.text) session =
      (.ok (), { session with kept := after }) := by
    simp [launcher, save]
  rw [Launcher.run, rendered]
  dsimp only
  rw [saved]
  rfl

theorem effect_query {α : Type} {result : Except Fault α}
    (prepare : step.prepare store session.kept = result.map fun _ => none) :
    step.effect store session = (faultOf? result, session) := by
  rw [effect, prepare]
  cases result <;> rfl

theorem faultOf?_map {α β : Type} (f : α → β) (result : Except Fault α) :
    faultOf? (result.map f) = faultOf? result := by
  cases result <;> rfl

theorem rerun_load : (step.launcher store).rerun step.load step.grammars session =
    match step.last store session.kept with
    | .error cause => (.error cause, session)
    | .ok none => (.ok none, session)
    | .ok (some target) => ((step.launcher store).run target session).map (Except.map some) id := by
  rw [Launcher.rerun, lastTarget_load]
  match step.last store session.kept with
  | .error cause => rfl
  | .ok none => rfl
  | .ok (some target) =>
    dsimp only
    match (step.launcher store).run target session with
    | (.error cause, after) => rfl
    | (.ok outcome, after) => rfl

theorem perform_lastTarget (h : step.operation = .lastTarget) :
    step.perform store session = (.target (step.last store session.kept), session) := by
  rw [perform, h]
  dsimp only
  rw [lastTarget_load]
  rfl

theorem perform_rerun {target : Occurrence} (h : step.operation = .rerun)
    (last : step.last store session.kept = .ok (some target)) :
    step.perform store session =
      ((step.launcher store).run target session).map (fun outcome => .rerun (outcome.map some))
        id := by
  rw [perform, h]
  dsimp only
  rw [rerun_load, last]
  rfl

/-- **What a step does** follows from what it has prepared. -/
theorem perform_effect (store : Store S) (step : Step) (session : Session S) :
    (step.perform store session).map Answer.fault? id = step.effect store session := by
  cases operation : step.operation with
  | render target action =>
    rw [perform, operation, effect_query (by rw [prepare, operation])]
    rfl
  | run target =>
    rw [perform, operation, effect_run (by rw [prepare, operation])]
    rfl
  | dryRun target =>
    rw [perform, operation, effect_dryRun (by rw [prepare, operation])]
    rfl
  | execute target action =>
    cases action with
    | run =>
      rw [perform, operation, effect_run (by rw [prepare, operation])]
      rfl
    | dryRun =>
      rw [perform, operation, effect_dryRun (by rw [prepare, operation])]
      rfl
  | lastTarget =>
    rw [perform_lastTarget operation, effect_query (by rw [prepare, operation])]
    rfl
  | rerun =>
    have prepared : step.prepare store session.kept = match step.last store session.kept with
        | .error cause => .error cause
        | .ok none => .ok none
        | .ok (some target) => step.launch store target true := by
      rw [prepare, operation]
    match last : step.last store session.kept with
    | .error cause =>
      rw [last] at prepared
      rw [effect, prepared, perform, operation]
      dsimp only
      rw [rerun_load, last]
      rfl
    | .ok none =>
      rw [last] at prepared
      rw [effect, prepared, perform, operation]
      dsimp only
      rw [rerun_load, last]
      rfl
    | .ok (some target) =>
      rw [last] at prepared
      rw [effect_run prepared, perform_rerun operation last]
      exact Prod.ext (faultOf?_map some _) rfl

theorem fault?_perform (store : Store S) (step : Step) (session : Session S) :
    (step.perform store session).1.fault? = (step.effect store session).1 := by
  rw [← perform_effect]
  rfl

theorem session_perform (store : Store S) (step : Step) (session : Session S) :
    (step.perform store session).2 = (step.effect store session).2 := by
  rw [← perform_effect]
  rfl

/-! ## What a session does -/

theorem launch?_of_prepare {kept : S} {launch : Launch}
    (prepare : step.prepare store kept = .ok (some launch)) :
    step.launch? store kept =
      if launch.recorded then
        match (store.save launch.record kept).1 with
        | .ok () => some launch
        | .error _ => none
      else some launch := by
  rw [launch?, prepare]

theorem saving?_of_prepare {kept : S} {launch : Launch}
    (prepare : step.prepare store kept = .ok (some launch)) :
    step.saving? store kept =
      if launch.recorded then some (store.save launch.record kept).1.isOk else none := by
  rw [saving?, prepare]

/-- How a step ends: it sets out to execute nothing, or the record of its launch cannot be saved, or
its launch is executed, with a record or without. -/
inductive Finish (store : Store S) (step : Step) (session : Session S) : Prop
  | idle (launched : step.launch? store session.kept = none)
      (saving : step.saving? store session.kept = none)
      (after : (step.perform store session).2 = session)
  | unsaved {record : RunRecord} {cause : Fault} {kept : S}
      (launched : step.launch? store session.kept = none)
      (saving : step.saving? store session.kept = some false)
      (save : store.save record session.kept = (.error cause, kept))
      (after : (step.perform store session).2 = { session with kept := kept })
  | recorded {launch : Launch} {kept : S}
      (launched : step.launch? store session.kept = some launch)
      (saving : step.saving? store session.kept = some true)
      (recorded : launch.recorded = true)
      (save : store.save launch.record session.kept = (.ok (), kept))
      (after : (step.perform store session).2 = ⟨kept, session.executed ++ [launch.command]⟩)
  | unrecorded {launch : Launch}
      (launched : step.launch? store session.kept = some launch)
      (saving : step.saving? store session.kept = none)
      (unrecorded : ¬ launch.recorded = true)
      (after : (step.perform store session).2 =
        { session with executed := session.executed ++ [launch.command] })

theorem finish (store : Store S) (step : Step) (session : Session S) :
    Finish store step session := by
  match prepare : step.prepare store session.kept with
  | .error cause =>
    exact .idle (by rw [launch?, prepare]) (by rw [saving?, prepare])
      (by rw [session_perform, effect, prepare])
  | .ok none =>
    exact .idle (by rw [launch?, prepare]) (by rw [saving?, prepare])
      (by rw [session_perform, effect, prepare])
  | .ok (some launch) =>
    have launched := launch?_of_prepare prepare
    have saving := saving?_of_prepare prepare
    have after := session_perform store step session
    rw [effect, prepare] at after
    dsimp only at after
    by_cases recorded : launch.recorded = true
    · rw [if_pos recorded] at launched saving after
      match save : store.save launch.record session.kept with
      | (.error cause, kept) =>
        rw [save] at launched saving after
        exact .unsaved launched saving save after
      | (.ok (), kept) =>
        rw [save] at launched saving after
        exact .recorded launched saving recorded save after
    · rw [if_neg recorded] at launched saving after
      exact .unrecorded launched saving recorded after

/-- What is stored after some launches: the record of the last recorded one, or what was stored
before. -/
def storedAfter (store : Store S) (session : Session S) (launches : List Launch) :
    Except Fault (Option RunRecord) :=
  match (launches.filter Launch.recorded).getLast? with
  | some launch => .ok (some launch.record)
  | none => store.stored session.kept

/-- What is stored after more launches: what was stored in between does not count if one of them is
recorded. -/
theorem storedAfter_append {between : Session S} {first second : List Launch}
    (h : second.filter Launch.recorded = [] →
      store.stored between.kept = storedAfter store session first) :
    storedAfter store session (first ++ second) = storedAfter store between second := by
  unfold storedAfter at h ⊢
  rw [List.filter_append, List.getLast?_append]
  cases recorded : (second.filter Launch.recorded).getLast? with
  | none => exact (h (List.getLast?_eq_none_iff.1 recorded)).symm
  | some launch => rfl

/-- A step stores what its launch asks for, unless its record cannot be saved: then that is up to
the store. -/
theorem stored_perform {fits : RunRecord → Prop} (saves : store.Saves fits)
    (fit : ∀ launch ∈ step.launch? store session.kept, launch.recorded = true → fits launch.record)
    (went : step.saving? store session.kept ≠ some false ∨ store.Keeps fits) :
    store.stored (step.perform store session).2.kept =
      storedAfter store session (step.launch? store session.kept).toList := by
  cases finish store step session with
  | idle launched _ after =>
    rw [launched, after]
    rfl
  | unsaved launched saving save after =>
    rw [launched, after]
    exact (went.resolve_left (absurd saving)).failed _ _ _ _ save
  | recorded launched _ recorded save after =>
    rw [launched, after, Option.toList_some, storedAfter, List.filter_cons_of_pos recorded]
    exact saves.saved _ _ _ (fit _ launched recorded) save
  | unrecorded launched _ unrecorded after =>
    rw [launched, after, Option.toList_some, storedAfter, List.filter_cons_of_neg unrecorded]
    rfl

/-- A step executes what its launch asks for. -/
theorem executed_perform : (step.perform store session).2.executed =
    session.executed ++ (step.launch? store session.kept).toList.map Launch.command := by
  cases finish store step session with
  | idle launched _ after =>
    rw [launched, after]
    exact (List.append_nil _).symm
  | unsaved launched _ _ after =>
    rw [launched, after]
    exact (List.append_nil _).symm
  | recorded launched _ _ _ after =>
    rw [launched, after]
    rfl
  | unrecorded launched _ _ after =>
    rw [launched, after]
    rfl

/-- A step that saves a record launches what it is of. -/
theorem recorded_of_saving? (saved : step.saving? store session.kept = some true) :
    (step.launch? store session.kept).toList.filter Launch.recorded ≠ [] := by
  cases finish store step session with
  | idle _ saving => cases saving.symm.trans saved
  | unsaved _ saving => cases saving.symm.trans saved
  | recorded launched _ recorded => simp [launched, recorded]
  | unrecorded _ saving => cases saving.symm.trans saved

/-! The last step of a session. -/

theorem performAll_concat (steps : List Step) (step : Step) (session : Session S) :
    performAll store (steps ++ [step]) session =
      (step.perform store (performAll store steps session)).2 := by
  induction steps generalizing session with
  | nil => rfl
  | cons first steps ih => exact ih _

theorem launches_concat (steps : List Step) (step : Step) (session : Session S) :
    launches store (steps ++ [step]) session = launches store steps session ++
      (step.launch? store (performAll store steps session).kept).toList := by
  induction steps generalizing session with
  | nil => exact List.append_nil _
  | cons first steps ih =>
    rw [List.cons_append, launches, launches, performAll, ih, List.append_assoc]

theorem savings_concat (steps : List Step) (step : Step) (session : Session S) :
    savings store (steps ++ [step]) session = savings store steps session ++
      (step.saving? store (performAll store steps session).kept).toList := by
  induction steps generalizing session with
  | nil => exact List.append_nil _
  | cons first steps ih =>
    rw [List.cons_append, savings, savings, performAll, ih, List.append_assoc]

/-- A session stores what its launches ask for, unless its last save failed: then that is up to the
store. -/
theorem stored_performAll {fits : RunRecord → Prop} (saves : store.Saves fits) {steps : List Step}
    (fit : ∀ launch ∈ launches store steps session, launch.recorded = true → fits launch.record)
    (went : (savings store steps session).getLast? ≠ some false ∨ store.Keeps fits) :
    store.stored (performAll store steps session).kept =
      storedAfter store session (launches store steps session) := by
  induction steps using List.reverseRecOn with
  | nil => rfl
  | append_singleton steps step ih =>
    rw [launches_concat] at fit ⊢
    rw [performAll_concat]
    rw [savings_concat, List.getLast?_append] at went
    have now : step.saving? store (performAll store steps session).kept ≠ some false ∨
        store.Keeps fits := went.imp_left fun last failed => last (by rw [failed]; rfl)
    rw [stored_perform saves (fun launch mem =>
      fit launch (List.mem_append_right _ (Option.mem_toList.2 mem))) now]
    -- A recorded launch settles what is stored; without one, the save before is still the last.
    refine (storedAfter_append fun unrecorded => ih (fun launch mem =>
      fit launch (List.mem_append_left _ mem)) (went.imp_left fun last failed => ?_)).symm
    cases saving : step.saving? store (performAll store steps session).kept with
    | none => exact last (by rw [saving, failed]; rfl)
    | some saved =>
      cases saved with
      | true => exact recorded_of_saving? saving unrecorded
      | false => exact last (by rw [saving]; rfl)

theorem executed_performAll {steps : List Step} : (performAll store steps session).executed =
    session.executed ++ (launches store steps session).map Launch.command := by
  induction steps generalizing session with
  | nil => exact (List.append_nil _).symm
  | cons step steps ih =>
    rw [performAll, launches, ih, executed_perform, List.map_append, List.append_assoc]

/-- A launch is of the target that it was asked for and has the command that this was rendered
to. -/
theorem launch_eq_ok {target : Occurrence} {recorded : Bool} {launch : Launch}
    (h : step.launch store target recorded = .ok (some launch)) :
    launch.target = target ∧ launch.recorded = recorded ∧
      (step.launcher store).render launch.target launch.action = .ok launch.command := by
  rw [Step.launch] at h
  match rendered : (step.launcher store).render target (if recorded then .run else .dryRun) with
  | .error cause =>
    rw [rendered] at h
    cases h
  | .ok command =>
    rw [rendered] at h
    cases h
    exact ⟨rfl, rfl, rendered⟩

theorem render_of_prepare {kept : S} {launch : Launch}
    (h : step.prepare store kept = .ok (some launch)) :
    (step.launcher store).render launch.target launch.action = .ok launch.command := by
  have query : ∀ {α : Type} {result : Except Fault α},
      (result.map fun _ => (none : Option Launch)) ≠ .ok (some launch) := by
    intro α result eq
    cases result <;> cases eq
  unfold prepare at h
  split at h
  · exact absurd h query
  · exact (launch_eq_ok h).2.2
  · exact (launch_eq_ok h).2.2
  · exact (launch_eq_ok h).2.2
  · exact (launch_eq_ok h).2.2
  · exact absurd h query
  · split at h
    · cases h
    · cases h
    · exact (launch_eq_ok h).2.2

theorem prepare_of_launch? {kept : S} {launch : Launch}
    (h : step.launch? store kept = some launch) :
    step.prepare store kept = .ok (some launch) := by
  unfold launch? at h
  split at h
  · next prepare =>
    split at h
    · split at h
      · obtain rfl := Option.some.inj h
        exact prepare
      · cases h
    · obtain rfl := Option.some.inj h
      exact prepare
  · cases h

/-- The record of a launch that was handed to the executor was saved, if it is recorded. -/
theorem save_of_launch? {launch : Launch} (h : step.launch? store session.kept = some launch)
    (recorded : launch.recorded = true) :
    ∃ after, store.save launch.record session.kept = (.ok (), after) ∧
      (step.perform store session).2 = ⟨after, session.executed ++ [launch.command]⟩ := by
  cases finish store step session with
  | idle launched => cases launched.symm.trans h
  | unsaved launched => cases launched.symm.trans h
  | recorded launched _ _ save after =>
    cases launched.symm.trans h
    exact ⟨_, save, after⟩
  | unrecorded launched _ unrecorded =>
    cases launched.symm.trans h
    exact absurd recorded unrecorded

/-- **The record of the last run is exact.** After any steps, what is stored is the record of the
last run that was rendered and saved, or what was stored before, unless the last record that was to
be saved could not be: then the store must be one that keeps what it holds, as the file of the last
run is in a folder without `..`. The executor has received, in order, the commands of the runs that
were rendered and saved and of the dry runs that were rendered. Each command is what the target was
rendered to at its step. A step with a fault before that leaves everything as it was, one whose
record cannot be saved executes nothing, and what becomes of a command changes neither what is
stored nor what was executed. -/
theorem session_follows_launches (store : Store S) {fits : RunRecord → Prop}
    (saves : store.Saves fits) (steps : List Step) (session : Session S)
    (fit : ∀ launch ∈ launches store steps session, launch.recorded = true →
      fits launch.record) :
    ((savings store steps session).getLast? ≠ some false ∨ store.Keeps fits →
      store.stored (performAll store steps session).kept =
        storedAfter store session (launches store steps session)) ∧
      (∀ folder : Path, (RunRecord.fileStore folder).Saves RunRecord.Fits ∧
        (.up ∉ folder.components → (RunRecord.fileStore folder).Keeps RunRecord.Fits)) ∧
      (performAll store steps session).executed =
        session.executed ++ (launches store steps session).map Launch.command ∧
      ∀ (step : Step) (current : Session S),
        (∀ launch, step.launch? store current.kept = some launch →
          (step.launcher store).render launch.target launch.action = .ok launch.command) ∧
        (∀ cause, step.prepare store current.kept = .error cause →
          (step.perform store current).1.fault? = some cause ∧
            (step.perform store current).2 = current) ∧
        (∀ launch cause after, step.prepare store current.kept = .ok (some launch) →
          launch.recorded = true → store.save launch.record current.kept = (.error cause, after) →
            (step.perform store current).1.fault? = some cause ∧
              (step.perform store current).2 = { current with kept := after }) ∧
        ∀ outcome, (({ step with outcome } : Step).perform store current).2 =
          (step.perform store current).2 := by
  refine ⟨stored_performAll saves fit, fun folder => ⟨RunRecord.saves_fileStore folder,
    RunRecord.keeps_fileStore⟩, executed_performAll, fun step current => ⟨fun launch handed => ?_,
    fun cause prepare => ?_, fun launch cause after prepare recorded save => ?_,
    fun outcome => ?_⟩⟩
  · exact render_of_prepare (prepare_of_launch? handed)
  · rw [fault?_perform, session_perform, effect, prepare]
    exact ⟨rfl, rfl⟩
  · rw [fault?_perform, session_perform, effect, prepare]
    dsimp only
    rw [if_pos recorded, save]
    exact ⟨rfl, rfl⟩
  · have same : ({ step with outcome } : Step).prepare store current.kept =
        step.prepare store current.kept := rfl
    rw [session_perform, session_perform, effect, effect, same]
    match step.prepare store current.kept with
    | .error cause => rfl
    | .ok none => rfl
    | .ok (some launch) =>
      dsimp only
      split
      · split <;> rfl
      · rfl

def oneTarget : FileSystem := ⟨.directory [("Makefile", .file "all:\n".toUTF8)], []⟩

def onlyTarget : Occurrence := .direct ⟨⟨⟨"Makefile"⟩, "all:\n"⟩, .make, ⟨"all", "", 0, 0⟩⟩

/-- A run and a dry run in that project; every command is killed. -/
def runAndDryRun : List Step :=
  [.run onlyTarget, .dryRun onlyTarget].map fun operation =>
    ⟨.standard, oneTarget.openDocument, .builtin, fun _ => .ok ⟨none⟩, operation⟩

/-- The run is stored, even in a folder that turns back, since its record could be saved. -/
theorem dry_run_leaves_run_stored :
    let store := RunRecord.fileStore ⟨"state/.."⟩
    let final := performAll store runAndDryRun ⟨oneTarget, []⟩
    (∀ launch ∈ launches store runAndDryRun ⟨oneTarget, []⟩, launch.recorded = true →
      launch.record.Fits) ∧
    savings store runAndDryRun ⟨oneTarget, []⟩ = [true] ∧
    (store.stored final.kept).toOption.join.map RunRecord.name = some "all" ∧
    final.executed.map Command.action = [.run, .dryRun] := by
  intro store final
  have fit : ∀ launch ∈ launches store runAndDryRun ⟨oneTarget, []⟩, launch.recorded = true →
      launch.record.Fits := by decide +kernel
  have went : savings store runAndDryRun ⟨oneTarget, []⟩ = [true] := by decide +kernel
  obtain ⟨stored, -, executed, -⟩ := session_follows_launches store
    (RunRecord.saves_fileStore _) runAndDryRun ⟨oneTarget, []⟩ fit
  refine ⟨fit, went, ?_, ?_⟩
  · rw [stored (.inl (by rw [went]; decide))]
    decide +kernel
  · rw [executed]
    decide +kernel

/-- A project with a directory where a folder that turns back keeps its file. -/
def takenPlace : FileSystem :=
  ⟨.directory [("Makefile", .file "all:\n".toUTF8), ("last-target.json", .directory [])], []⟩

/-- A run whose record cannot be written uncovers the directory in its place: there was no last run,
none was launched, and yet what is stored is a fault from then on. -/
theorem failed_save_uncovers_directory :
    let store := RunRecord.fileStore ⟨"missing/.."⟩
    let before : Session FileSystem := ⟨takenPlace, []⟩
    let steps := runAndDryRun.take 1
    let final := performAll store steps before
    launches store steps before = [] ∧ savings store steps before = [false] ∧
      store.stored before.kept = .ok none ∧ final.executed = [] ∧
      store.stored final.kept = .error (.file .isDirectory) ∧
      store.stored final.kept ≠ storedAfter store before (launches store steps before) := by
  decide +kernel

end Step

end BuildTargets
