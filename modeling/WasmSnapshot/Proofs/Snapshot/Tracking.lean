import WasmSnapshot.Proofs.Snapshot.Readings
import WasmSnapshot.Proofs.Snapshot.Sessions

/-! Runs of a tracked instance as runs of a machine with two states. A capture that succeeds takes it
to one of them and a resumption to the other; nothing else moves it, a failure in particular does not.
Of the store, captures change nothing if the getters of the instance do not. So a run leaves what is
left by the host's doings and by those resumptions alone that are carried out. -/

namespace WasmSnapshot

/-! ### Getters that change nothing -/

namespace Store

variable {ε α β : Type} {store : Store}

theorem run_bind_snd {x : ExceptT ε (StateM Store) α} {f : α → ExceptT ε (StateM Store) β}
    (hx : (store.run x).2 = store) (hf : ∀ a, (store.run (f a)).2 = store) :
    (store.run (x >>= f)).2 = store := by
  rw [run_bind]
  rcases hrun : store.run x with ⟨e | a, next⟩
  · rwa [hrun] at hx
  · rw [hrun] at hx
    cases hx
    exact hf a

theorem run_foldlM_snd {f : β → α → ExceptT ε (StateM Store) β} {list : List α}
    (h : ∀ b, ∀ a ∈ list, (store.run (f b a)).2 = store) (b : β) :
    (store.run (list.foldlM f b)).2 = store := by
  induction list generalizing b with
  | nil => rfl
  | cons a list ih =>
    rw [List.foldlM_cons]
    exact run_bind_snd (h b a List.mem_cons_self) fun next =>
      ih (fun b' a' ha' => h b' a' (List.mem_cons_of_mem a ha')) next

theorem run_snd_of_within {x : ExceptT ε (StateM Store) α} [Within Eq x] :
    (store.run x).2 = store := (Within.out store : store = (store.run x).2).symm

end Store

section Tracking

variable [Host] {symbol : String} {inst : Instance} {store : Store}

/-- Calling a getter of the instance leaves the store as it is. -/
def Instance.ReadsOnly (inst : Instance) (symbol : String) (store : Store) : Prop :=
  ∀ entry ∈ (AccessorExports.ofInstance symbol inst).globals, entry.1.reads = true →
    (store.run (Capture.callGetter entry.2)).2 = store

/-- Whenever the instance is captured in a run, calling a getter leaves the store as it is. -/
def Session.ReadsOnly (start : Session) (actions : List Session.Action) : Prop :=
  ∀ earlier later, actions = earlier ++ .hibernate :: later →
    start.tracked.inst.ReadsOnly start.tracked.symbol (start.afterAll earlier).store

namespace Capture

theorem run_readAccessor_snd {entry : Accessor × Address} (readings : Readings)
    (h : entry.1.reads = true → (store.run (callGetter entry.2)).2 = store) :
    (store.run (readAccessor readings entry)).2 = store := by
  obtain ⟨accessor, address⟩ := entry
  cases accessor with
  | i32Getter index | i64GetterHigh index | i64GetterLow index =>
    exact Store.run_bind_snd (h rfl) fun _ => rfl
  | memory | table | function index | i32Setter index | i64Setter index => rfl

end Capture

/-- Capturing changes nothing, be it that it fails, if the getters do not. -/
theorem Instance.ReadsOnly.run_capture (h : inst.ReadsOnly symbol store) :
    (store.run (Snapshot.capture symbol inst)).2 = store := by
  unfold Snapshot.capture
  refine Store.run_bind_snd Store.run_snd_of_within fun memory => ?_
  refine Store.run_bind_snd Store.run_snd_of_within fun table => ?_
  refine Store.run_bind_snd ?_ fun readings => Store.run_snd_of_within
  exact Store.run_foldlM_snd
    (fun readings entry hentry => Capture.run_readAccessor_snd readings (h entry hentry)) {}

/-- The getters that a module is given are of this kind. -/
theorem Prepared.readsOnly {selection : Selection} {given : String} {bytes : Bytes}
    {sections : List Section} {original m : Declarations}
    (h : Prepared selection given bytes sections original m)
    (hnames : ∀ e ∈ original.exports, Accessor.ofExportName? symbol e.name = none)
    (hof : inst.Of m store) : inst.ReadsOnly symbol store := by
  intro entry hentry hreads
  have hserves := (h.exposes_under hnames hof).serves hentry
  obtain ⟨accessor, address⟩ := entry
  cases accessor with
  | i32Getter index =>
    obtain ⟨value, -, hcall⟩ := hserves
    rw [hcall]
  | i64GetterHigh index | i64GetterLow index =>
    obtain ⟨high, low, -, hcall⟩ := hserves
    rw [hcall]
  | memory | table | function index | i32Setter index | i64Setter index => cases hreads

/-! ### Two states -/

/-- The state after an action that succeeds or fails. -/
def SyncState.next (state : SyncState) : Session.Action → Bool → SyncState
  | .hibernate, true => .captured
  | .resume _, true => .normal
  | .hibernate, false | .resume _, false | .host _, _ => state

namespace Session

variable {session start : Session} {actions earlier later : List Action} {action : Action}
  {snapshot : Snapshot}

/-- Whether an action comes to its end without an error. For the host there is nothing to fail. -/
def succeeds (session : Session) : Action → Bool
  | .hibernate => (session.tracked.hibernate.run session.store).1.2.isOk
  | .resume snapshot => ((session.tracked.resume snapshot).run session.store).1.2.isOk
  | .host _ => true

theorem state_after (session : Session) (action : Action) : (session.after action).tracked.state =
    session.tracked.state.next action (session.succeeds action) := by
  cases action with
  | hibernate =>
    rcases hrun : session.store.run
      (Snapshot.capture session.tracked.symbol session.tracked.inst) with ⟨e | snapshot, next⟩
    · rw [after_hibernate_of_error hrun, succeeds, TrackedInstance.run_hibernate_of_error hrun]
      rfl
    · rw [after_hibernate_of_ok hrun, succeeds, TrackedInstance.run_hibernate_of_ok hrun]
      rfl
  | resume snapshot =>
    cases hstate : session.tracked.state with
    | captured =>
      rw [after_resume_captured hstate, succeeds, TrackedInstance.run_resume_captured _ _ hstate]
      rfl
    | normal =>
      rw [after_resume_normal hstate]
      cases session.succeeds (.resume snapshot) <;> exact hstate
  | host event => rfl

theorem inst_after (session : Session) (action : Action) :
    (session.after action).tracked.inst = session.tracked.inst ∧
      (session.after action).tracked.symbol = session.tracked.symbol :=
  session.tracked_afterAll [action]

/-- What fails leaves the tracking as it was. -/
theorem tracked_after_of_fails (h : session.succeeds action = false) :
    (session.after action).tracked = session.tracked := by
  have hstate := session.state_after action
  obtain ⟨hinst, hsymbol⟩ := session.inst_after action
  have hkept : session.tracked.state.next action false = session.tracked.state := by
    cases action <;> rfl
  rw [h, hkept] at hstate
  generalize (session.after action).tracked = tracked at hstate hinst hsymbol ⊢
  cases tracked
  cases hstate
  cases hinst
  cases hsymbol
  rfl

/-- An instance is taken for captured as long as it is not resumed. -/
theorem state_afterAll_of_captured (hstate : session.tracked.state = .captured)
    (hactions : ∀ action ∈ actions, action.resumes = false) :
    (session.afterAll actions).tracked.state = .captured := by
  induction actions generalizing session with
  | nil => exact hstate
  | cons action actions ih =>
    obtain ⟨haction, hactions⟩ := List.forall_mem_cons.1 hactions
    have hcaptured : (session.after action).tracked.state = .captured := by
      rw [state_after]
      cases action with
      | hibernate => cases session.succeeds .hibernate <;> first | rfl | exact hstate
      | resume snapshot => cases haction
      | host event => exact hstate
    exact ih hcaptured hactions

theorem state_eq_captured_iff (hstart : start.tracked.state = .normal) :
    (start.afterAll actions).tracked.state = .captured ↔ ∃ earlier later,
      actions = earlier ++ .hibernate :: later ∧
      (start.afterAll earlier).succeeds .hibernate = true ∧
      ∀ action ∈ later, action.resumes = false := by
  constructor
  · intro hstate
    obtain ⟨earlier, later, snapshot, captured, hactions, hlater, hrun, -⟩ :=
      exists_hibernate_of_captured hstart hstate
    refine ⟨earlier, later, hactions, ?_, hlater⟩
    obtain ⟨hinst, hsymbol⟩ := start.tracked_afterAll earlier
    rw [← hinst, ← hsymbol] at hrun
    rw [succeeds, TrackedInstance.run_hibernate_of_ok hrun]
    rfl
  · rintro ⟨earlier, later, rfl, hsucceeds, hlater⟩
    have hcaptured : ((start.afterAll earlier).after .hibernate).tracked.state = .captured := by
      rw [state_after, hsucceeds]
      rfl
    have hlast := state_afterAll_of_captured hcaptured hlater
    rw [afterAll, List.foldl_append]
    exact hlast

/-- Only the first resumption after a capture is skipped, unless the instance is captured anew. -/
theorem resumes_eq_false_of_captured (hstart : start.tracked.state = .normal)
    (hfails : ∀ front back, later = front ++ .hibernate :: back →
      (start.afterAll (earlier ++ .hibernate :: front)).succeeds .hibernate = false)
    (hstate : (start.afterAll (earlier ++ .hibernate :: later)).tracked.state = .captured) :
    ∀ action ∈ later, action.resumes = false := by
  obtain ⟨before, since, hactions, hsucceeds, hsince⟩ := (state_eq_captured_iff hstart).1 hstate
  -- The last capture that succeeded is no later than the one in question.
  rcases List.append_eq_append_iff.1 hactions with ⟨front, hbefore, hlater⟩ | ⟨front, -, hsplit⟩
  · cases front with
    | nil =>
      cases hlater
      exact hsince
    | cons action front =>
      rw [List.cons_append] at hlater
      cases hlater
      rw [hbefore, hfails front since rfl] at hsucceeds
      cases hsucceeds
  · intro action haction
    cases front with
    | nil =>
      cases hsplit
      exact hsince action haction
    | cons first front =>
      rw [List.cons_append] at hsplit
      cases hsplit
      exact hsince action (by simp [haction])

/-! ### What a run does to the store -/

/-- The actions of a run that may change the store: no captures, and no resumptions that are
skipped. -/
def carriedOut (session : Session) : List Action → List Action
  | [] => []
  | .hibernate :: actions => (session.after .hibernate).carriedOut actions
  | .resume snapshot :: actions =>
    match session.tracked.state with
    | .captured => (session.after (.resume snapshot)).carriedOut actions
    | .normal => .resume snapshot :: (session.after (.resume snapshot)).carriedOut actions
  | .host event :: actions => .host event :: (session.after (.host event)).carriedOut actions

theorem hibernate_notMem_carriedOut (session : Session) (actions : List Action) :
    Action.hibernate ∉ session.carriedOut actions := by
  induction actions generalizing session with
  | nil => exact List.not_mem_nil
  | cons action actions ih =>
    cases action with
    | hibernate => exact ih _
    | resume snapshot =>
      rw [carriedOut]
      split
      · exact ih _
      · simp [ih]
    | host event => simp [carriedOut, ih]

/-- Without captures nothing is skipped, so a run does what its events do. -/
theorem afterAll_of_notMem (hstate : session.tracked.state = .normal)
    (hactions : Action.hibernate ∉ actions) : session.afterAll actions = { session with
      store := session.store.afterAll
        (actions.map (Action.event session.tracked.symbol session.tracked.inst)) } := by
  induction actions generalizing session with
  | nil => rfl
  | cons action actions ih =>
    rw [List.mem_cons, not_or] at hactions
    have hafter : session.after action = { session with
        store := (action.event session.tracked.symbol session.tracked.inst).after session.store } := by
      cases action with
      | hibernate => exact absurd rfl hactions.1
      | resume snapshot => exact after_resume_normal hstate
      | host event => rfl
    have hnext : (session.after action).tracked.state = .normal := by rw [hafter]; exact hstate
    have hrest := ih hnext hactions.2
    rw [hafter] at hrest
    rw [afterAll, List.foldl_cons, hafter]
    exact hrest

/-- A run leaves the store that the events leave which are carried out. -/
theorem store_afterAll_carriedOut (session : Session) (actions : List Action)
    (hreads : session.ReadsOnly actions) :
    (session.afterAll actions).store = session.store.afterAll
      ((session.carriedOut actions).map
        (Action.event session.tracked.symbol session.tracked.inst)) := by
  induction actions generalizing session with
  | nil => rfl
  | cons action actions ih =>
    obtain ⟨hinst, hsymbol⟩ := session.inst_after action
    have hrestReads : (session.after action).ReadsOnly actions := by
      rintro earlier later rfl
      rw [hinst, hsymbol]
      exact hreads (action :: earlier) later rfl
    have hnext := ih (session.after action) hrestReads
    rw [hinst, hsymbol] at hnext
    have hrest : (session.afterAll (action :: actions)).store =
      ((session.after action).afterAll actions).store := rfl
    rw [hrest]
    cases action with
    | hibernate =>
      have hstore : (session.after .hibernate).store = session.store := by
        rcases (session.moves_after .hibernate).store_eq with hstore | ⟨-, hresumes, -⟩
        · exact hstore.trans (hreads [] actions rfl).run_capture
        · cases hresumes
      rw [hstore] at hnext
      exact hnext
    | resume snapshot =>
      rw [carriedOut]
      cases hstate : session.tracked.state with
      | captured =>
        have hstore : (session.after (.resume snapshot)).store = session.store := by
          rw [after_resume_captured hstate]
        rw [hstore] at hnext
        exact hnext
      | normal =>
        have hstore : (session.after (.resume snapshot)).store =
            (Event.restore snapshot session.tracked.inst).after session.store := by
          rw [after_resume_normal hstate]
        rw [hstore] at hnext
        exact hnext
    | host event => exact hnext

end Session

/-- How a tracked instance moves between its two states. It is taken for captured if and only if a
capture has succeeded and no resumption has been asked for since. What fails leaves it as it was. While
it is taken for captured, a resumption succeeds with whatever snapshot and does nothing; else it is the
restoration of the snapshot. So of the resumptions after a capture only the first one may be skipped,
until another capture succeeds, and where getters change nothing, as those that a module is given, the
store is the one that a run without captures and without skipped resumptions leaves. -/
theorem tracked_in_two_states {start session : Session} {actions : List Session.Action}
    (hstart : start.tracked.state = .normal) (hrun : start.afterAll actions = session) :
    (session.tracked.state = .captured ↔ ∃ earlier later,
      actions = earlier ++ .hibernate :: later ∧
      (start.afterAll earlier).succeeds .hibernate = true ∧
      ∀ action ∈ later, action.resumes = false) ∧
    (∀ action, (session.after action).tracked.state =
      session.tracked.state.next action (session.succeeds action)) ∧
    (∀ action, session.succeeds action = false →
      (session.after action).tracked = session.tracked) ∧
    (session.tracked.state = .captured → ∀ snapshot,
      (session.tracked.resume snapshot).run session.store =
        (({ session.tracked with state := .normal }, .ok ()), session.store)) ∧
    (session.tracked.state = .normal → ∀ snapshot outcome next,
      session.store.run (snapshot.restore session.tracked.inst) = (outcome, next) →
      (session.tracked.resume snapshot).run session.store = ((session.tracked, outcome), next)) ∧
    (∀ earlier later, actions = earlier ++ .hibernate :: later →
      (∀ front back, later = front ++ .hibernate :: back →
        (start.afterAll (earlier ++ .hibernate :: front)).succeeds .hibernate = false) →
      session.tracked.state = .captured → ∀ action ∈ later, action.resumes = false) ∧
    (start.ReadsOnly actions →
      session.store = (start.afterAll (start.carriedOut actions)).store ∧
      session.store = start.store.afterAll ((start.carriedOut actions).map
        (Session.Action.event start.tracked.symbol start.tracked.inst))) ∧
    (∀ {selection symbol bytes sections original m},
      Prepared selection symbol bytes sections original m →
      (∀ e ∈ original.exports, Accessor.ofExportName? start.tracked.symbol e.name = none) →
      start.tracked.inst.Of m start.store → start.ReadsOnly actions) := by
  subst hrun
  refine ⟨Session.state_eq_captured_iff hstart, Session.state_after _,
    fun action => Session.tracked_after_of_fails, fun hstate snapshot =>
      TrackedInstance.run_resume_captured _ snapshot hstate,
    fun hstate snapshot outcome next => TrackedInstance.run_resume_normal hstate, ?_, ?_, ?_⟩
  · rintro earlier later rfl hfails hstate
    exact Session.resumes_eq_false_of_captured hstart hfails hstate
  · intro hreads
    have hstore := start.store_afterAll_carriedOut actions hreads
    refine ⟨?_, hstore⟩
    rw [hstore, Session.afterAll_of_notMem hstart (start.hibernate_notMem_carriedOut actions)]
  · intro selection symbol bytes sections original m h hnames hof earlier later _
    obtain ⟨events, hevents⟩ := start.store_afterAll earlier
    rw [hevents]
    exact h.readsOnly hnames (hof.extends (start.store.extends_afterAll events))

end Tracking

/-- A snapshot that names a function which the sample instance does not have. -/
def foreignSnapshot : Snapshot := { table := [some 9], symbol := "_" }

/-- The instance is captured and resumed twice from a snapshot of another one: the first resumption is
skipped, the second one fails. Then the host clears a slot, and the instance is captured again. -/
def foreignResumes : List Session.Action :=
  [.hibernate, .resume foreignSnapshot, .resume foreignSnapshot, .host (.setSlot 0 0 none), .hibernate]

theorem tracked_in_two_states_foreignResumes : ∃ (declared : Declarations) (inst : Instance)
    (start session : Session),
    Prepared .all "_" (Section.encodeModule sampleSections) sampleSections sampleDeclarations
      declared ∧
    inst.Of declared start.store ∧ start.tracked = .ofInstance inst "_" ∧
    start.tracked.state = .normal ∧ start.afterAll foreignResumes = session ∧
    session.tracked.state = .captured ∧
    (∃ earlier later, foreignResumes = earlier ++ .hibernate :: later ∧
      (start.afterAll earlier).succeeds .hibernate = true ∧
      ∀ action ∈ later, action.resumes = false) ∧
    (start.afterAll [.hibernate, .resume foreignSnapshot]).succeeds (.resume foreignSnapshot) =
      false ∧
    start.ReadsOnly foreignResumes ∧
    start.carriedOut foreignResumes = [.resume foreignSnapshot, .host (.setSlot 0 0 none)] ∧
    session.store =
      (start.afterAll [.resume foreignSnapshot, .host (.setSlot 0 0 none)]).store := by
  obtain ⟨declared, inst, store, hprepared, hof, hlooked⟩ := exists_sample
    (p := fun inst store =>
      let start : Session := { tracked := .ofInstance inst "_", store }
      decide ((start.after .hibernate).tracked.state = .captured ∧
        ((start.after .hibernate).after (.resume foreignSnapshot)).tracked.state = .normal ∧
        (start.afterAll [.hibernate, .resume foreignSnapshot]).succeeds
          (.resume foreignSnapshot) = false ∧
        (start.afterAll foreignResumes).tracked.state = .captured))
    (by decide +kernel)
  obtain ⟨start, hstart⟩ : ∃ start : Session,
    start = { tracked := .ofInstance inst "_", store } := ⟨_, rfl⟩
  simp only [← hstart, decide_eq_true_eq] at hlooked
  obtain ⟨hcaptured, hskipped, hfails, hlast⟩ := hlooked
  have hstate : start.tracked.state = .normal := by rw [hstart]; rfl
  obtain ⟨hiff, -, -, -, -, -, hstore, hreads⟩ :=
    tracked_in_two_states hstate (Eq.refl (start.afterAll foreignResumes))
  have hquiet : start.ReadsOnly foreignResumes := by
    subst hstart
    exact hreads hprepared hprepared.names hof
  have hcarried : start.carriedOut foreignResumes =
      [.resume foreignSnapshot, .host (.setSlot 0 0 none)] := by
    simp only [foreignResumes, Session.carriedOut, hcaptured, hskipped]
  refine ⟨declared, inst, start, _, hprepared, by rw [hstart]; exact hof,
    by rw [hstart], hstate, rfl, hlast, hiff.1 hlast, hfails, hquiet, hcarried, ?_⟩
  rw [← hcarried]
  exact (hstore hquiet).1

end WasmSnapshot
