import FzeroVs.Session.Run

namespace FzeroVs.Session

theorem Discovery.fold_sockets {α : Type} {f : Discovery → α → Discovery}
    (each : ∀ d a, (f d a).listener = d.listener ∧ (f d a).responder = d.responder) (l : List α) (d : Discovery) :
    (l.foldl f d).listener = d.listener ∧ (l.foldl f d).responder = d.responder := by
  refine List.foldlRecOn (motive := fun e => e.listener = d.listener ∧ e.responder = d.responder) l f ⟨rfl, rfl⟩ ?_
  rintro e ⟨listeners, responders⟩ a _
  obtain ⟨listener, responder⟩ := each e a
  exact ⟨listener.trans listeners, responder.trans responders⟩

/-- Whatever stands in the way, listener and responder open or close together. -/
theorem Discovery.listen_paired {d : Discovery} (paired : d.responder = d.listener) (error bindAddress : String)
    (answers : ListenAnswers) :
    (d.listen error bindAddress answers).1.responder = (d.listen error bindAddress answers).1.listener := by
  unfold Discovery.listen
  split
  · exact paired
  dsimp only
  split
  · exact paired
  · exact paired
  · generalize joined : List.foldl _ _ _ = e
    obtain ⟨listener, responder⟩ : e.listener = d.listener ∧ e.responder = d.responder := by
      rw [← joined]
      exact Discovery.fold_sockets (fun d ip => by split <;> exact ⟨rfl, rfl⟩) _ _
    have kept := responder.trans (paired.trans listener.symm)
    split
    · exact kept
    · split
      · exact kept
      · rfl

theorem Discovery.openQuery_sockets (d : Discovery) (answers : ScanAnswers) :
    (d.openQuery answers).listener = d.listener ∧ (d.openQuery answers).responder = d.responder := by
  unfold Discovery.openQuery
  split
  · exact ⟨rfl, rfl⟩
  dsimp only
  split
  · exact ⟨rfl, rfl⟩
  · exact ⟨rfl, rfl⟩
  · split
    · exact ⟨rfl, rfl⟩
    · split <;> exact ⟨rfl, rfl⟩

theorem Discovery.ask_sockets (d : Discovery) (warning : String) (answers : ScanAnswers) :
    (d.ask warning answers).1.listener = d.listener ∧ (d.ask warning answers).1.responder = d.responder := by
  unfold Discovery.ask
  split
  · exact ⟨rfl, rfl⟩
  dsimp only
  generalize asked : List.foldl _ _ _ = e
  obtain ⟨listener, responder⟩ : e.listener = d.listener ∧ e.responder = d.responder := by
    rw [← asked]
    exact Discovery.fold_sockets (fun d ip => by split <;> exact ⟨rfl, rfl⟩) _ _
  have counted (condition : Prop) [Decidable condition] :
      (if condition then e.browseFailure "enumerate interfaces" "IPv4" answers.unreachable else e).listener =
          d.listener ∧
        (if condition then e.browseFailure "enumerate interfaces" "IPv4" answers.unreachable else e).responder =
          d.responder := by
    split <;> exact ⟨listener, responder⟩
  split <;> exact counted _

theorem Discovery.hear_sockets (d : Discovery) (rooms : List Room) (answers : ScanAnswers) :
    (d.hear rooms answers).1.listener = d.listener ∧ (d.hear rooms answers).1.responder = d.responder := by
  unfold Discovery.hear
  split
  · dsimp only
    split
    · split <;> exact ⟨rfl, rfl⟩
    · exact ⟨rfl, rfl⟩
  · exact ⟨rfl, rfl⟩

/-- Browsing has a socket of its own. -/
theorem Discovery.scan_sockets (d : Discovery) (rooms : List Room) (warning : String) (answers : ScanAnswers) :
    (d.scan rooms warning answers).1.listener = d.listener ∧
      (d.scan rooms warning answers).1.responder = d.responder := by
  have begun : (if d.browseStarted = 0 then { d with browseStarted := answers.now } else d).listener = d.listener ∧
      (if d.browseStarted = 0 then { d with browseStarted := answers.now } else d).responder = d.responder := by
    split <;> exact ⟨rfl, rfl⟩
  unfold Discovery.scan
  dsimp only
  generalize (if d.browseStarted = 0 then { d with browseStarted := answers.now } else d) = e at *
  obtain ⟨listener, responder⟩ := begun
  rw [← listener, ← responder]
  split
  · exact ⟨rfl, rfl⟩
  obtain ⟨opened, opened'⟩ := e.openQuery_sockets answers
  split
  · exact ⟨opened, opened'⟩
  · obtain ⟨asked, asked'⟩ := (e.openQuery answers).ask_sockets warning answers
    obtain ⟨heard, heard'⟩ := ((e.openQuery answers).ask warning answers).1.hear_sockets rooms answers
    exact ⟨heard.trans (asked.trans opened), heard'.trans (asked'.trans opened')⟩

/-- The states in which nobody hosts. -/
def Stage.released : Stage → Bool
  | .error | .idle | .resolving | .connecting | .connected => true
  | .stopping | .starting | .hosting => false

/-- What the worker holds, and in which states. -/
structure Worker.Held (w : Worker) : Prop where
  hosting : w.state.hosting = w.server
  released : w.state.state.released = true → w.server = false
  ready : w.ready = true → w.server = true
  logFile : w.logFile = true → w.server = true
  listener : w.discovery.listener = true → w.ready = true
  paired : w.discovery.responder = w.discovery.listener
  readyFile : w.ownsReadyFile = true → w.ready = true
  resolution : w.resolution ≠ none → w.server = false

/-- Nothing changes hands. -/
structure Worker.Same (w w' : Worker) : Prop where
  server : w'.server = w.server
  hosting : w'.state.hosting = w.state.hosting
  state : w'.state.state = w.state.state
  ready : w'.ready = w.ready
  logFile : w'.logFile = w.logFile
  listener : w'.discovery.listener = w.discovery.listener
  responder : w'.discovery.responder = w.discovery.responder
  ownsReadyFile : w'.ownsReadyFile = w.ownsReadyFile
  resolution : w'.resolution = none ↔ w.resolution = none

theorem Worker.Same.refl (w : Worker) : w.Same w := ⟨rfl, rfl, rfl, rfl, rfl, rfl, rfl, rfl, Iff.rfl⟩

theorem Worker.Same.trans {w₁ w₂ w₃ : Worker} (first : w₁.Same w₂) (second : w₂.Same w₃) : w₁.Same w₃ where
  server := second.server.trans first.server
  hosting := second.hosting.trans first.hosting
  state := second.state.trans first.state
  ready := second.ready.trans first.ready
  logFile := second.logFile.trans first.logFile
  listener := second.listener.trans first.listener
  responder := second.responder.trans first.responder
  ownsReadyFile := second.ownsReadyFile.trans first.ownsReadyFile
  resolution := second.resolution.trans first.resolution

theorem Worker.Held.same {w w' : Worker} (held : w.Held) (same : w.Same w') : w'.Held where
  hosting := by rw [same.hosting, same.server, held.hosting]
  released := by
    rw [same.state, same.server]
    exact held.released
  ready := by
    rw [same.ready, same.server]
    exact held.ready
  logFile := by
    rw [same.logFile, same.server]
    exact held.logFile
  listener := by
    rw [same.listener, same.ready]
    exact held.listener
  paired := by rw [same.responder, same.listener, held.paired]
  readyFile := by
    rw [same.ownsReadyFile, same.ready]
    exact held.readyFile
  resolution := by
    rw [same.server, ne_eq, same.resolution]
    exact held.resolution

namespace Worker

theorem push_same (w : Worker) (e : Event) : w.Same (w.push e) :=
  ⟨rfl, rfl, rfl, rfl, rfl, rfl, rfl, rfl, Iff.rfl⟩

theorem moved_held {w : Worker} (held : w.Held) (place : Place) : ({ w with place := place } : Worker).Held :=
  held.same ⟨rfl, rfl, rfl, rfl, rfl, rfl, rfl, rfl, Iff.rfl⟩

theorem drain_same (w : Worker) (events : List Event) : w.Same (w.drain events) :=
  List.foldlRecOn events push (.refl w) fun v same e _ => same.trans (v.push_same e)

/-- Nothing is held. -/
structure Free (w : Worker) : Prop where
  server : w.server = false
  hosting : w.state.hosting = false
  ready : w.ready = false
  logFile : w.logFile = false
  listener : w.discovery.listener = false
  responder : w.discovery.responder = false
  ownsReadyFile : w.ownsReadyFile = false

theorem Free.held {w : Worker} (free : w.Free) : w.Held where
  hosting := by rw [free.hosting, free.server]
  released _ := free.server
  ready ready := nomatch free.ready.symm.trans ready
  logFile logFile := nomatch free.logFile.symm.trans logFile
  listener listener := nomatch free.listener.symm.trans listener
  paired := by rw [free.responder, free.listener]
  readyFile readyFile := nomatch free.ownsReadyFile.symm.trans readyFile
  resolution _ := free.server

theorem stopServer_free (w : Worker) (answers : Answers) : (w.stopServer answers).Free := by
  unfold stopServer
  split
  · exact ⟨rfl, rfl, rfl, rfl, rfl, rfl, rfl⟩
  next off => exact ⟨Bool.not_eq_true _ ▸ off, rfl, rfl, rfl, rfl, rfl, rfl⟩

theorem give_free (w : Worker) (state : Stage) (message : String) (answers : Answers) :
    (w.give state message answers).Free := by
  have free := stopServer_free { w with state := { w.state with message := message } } answers
  exact { free with }

theorem take_free (w : Worker) (c : Command) (answers : Answers) : (w.take c answers).Free := by
  have free := w.stopServer_free answers
  exact { free with }

theorem take_resolution (w : Worker) (c : Command) (answers : Answers) : (w.take c answers).resolution = none := rfl

/-- A room is created by a worker that holds nothing. -/
theorem createRoom_held {w : Worker} (free : w.Free) (unasked : w.resolution = none) (starting : w.state.state = .starting)
    (pending : List Command) (answers : Answers) : (w.createRoom pending answers).Held := by
  have failed (message : String) : (w.fail message).Free :=
    { free with }
  unfold createRoom
  split
  · exact (failed _).held
  split
  · exact (failed _).held
  split
  · exact (give_free _ _ _ _).held
  · exact
      { hosting := rfl
        released := fun released => by
          change w.state.state.released = true at released
          rw [starting] at released
          exact nomatch released
        ready := fun _ => rfl
        logFile := fun _ => rfl
        listener := fun listener => nomatch free.listener.symm.trans listener
        paired := by
          change w.discovery.responder = w.discovery.listener
          rw [free.responder, free.listener]
        readyFile := fun readyFile => nomatch free.ownsReadyFile.symm.trans readyFile
        resolution := fun asked => absurd unasked asked }

theorem host_held {w : Worker} (free : w.Free) (unasked : w.resolution = none) (options : HostOptions)
    (pending : List Command) (answers : Answers) : (w.host options pending answers).Held := by
  have begun (options : HostOptions) :
      ({ w.setState .starting with options := options, place := .commands pending } : Worker).Free :=
    { free with }
  unfold host
  dsimp only
  split
  · have failed := begun options
    exact Free.held { failed with }
  · exact createRoom_held (begun (named options)) unasked rfl pending answers

/-- The resolver task is asked by a worker without a server. -/
theorem readResolution_held {w : Worker} (held : w.Held) : w.readResolution.Held := by
  have answered (state : Stage) (message : String) (place : Place) (waiting : w.resolution ≠ none) :
      ({ w with
        resolution := none
        state := { w.state with state := state, message := message }
        place := place } : Worker).Held :=
    { hosting := held.hosting
      released := fun _ => held.resolution waiting
      ready := held.ready
      logFile := held.logFile
      listener := held.listener
      paired := held.paired
      readyFile := held.readyFile
      resolution := fun asked => absurd rfl asked }
  unfold readResolution
  split
  · exact moved_held held .serve
  rename_i r asked
  have waiting : w.resolution ≠ none := by rw [asked]; exact nofun
  split
  · dsimp only
    split
    · exact answered .error r.error .serve waiting
    · exact answered .connecting w.state.message _ waiting
  · exact moved_held held .serve

theorem listen_held {w : Worker} (held : w.Held) (ready : w.ready = true) (answers : ListenAnswers) :
    (w.listen answers).Held where
  hosting := held.hosting
  released := held.released
  ready := held.ready
  logFile := held.logFile
  listener _ := ready
  paired := Discovery.listen_paired held.paired _ _ _
  readyFile := held.readyFile
  resolution := held.resolution

theorem advertise_same (w : Worker) (answers : Answers) : w.Same (w.advertise answers) := by
  unfold advertise
  split
  · obtain ⟨listener, responder⟩ := Discovery.fold_sockets
      (f := fun d failed => d.hostFailure "send reply" failed.1 failed.2) (fun _ _ => ⟨rfl, rfl⟩)
      answers.unanswered w.discovery
    exact ⟨rfl, rfl, rfl, rfl, rfl, listener, responder, rfl, Iff.rfl⟩
  · exact .refl w

theorem becomeReady_held {w : Worker} (held : w.Held) (server : w.server = true) (answers : Answers) :
    (w.becomeReady answers).Held := by
  unfold becomeReady
  split
  · exact (give_free _ _ _ _).held
  · have ready : ({ w.setState .hosting with
        ownsReadyFile := w.wantsReadyFile || w.ownsReadyFile
        ready := true } : Worker).Held :=
      { hosting := held.hosting
        released := fun released => nomatch released
        ready := fun _ => server
        logFile := held.logFile
        listener := fun _ => rfl
        paired := held.paired
        readyFile := fun _ => rfl
        resolution := held.resolution }
    exact listen_held ready rfl answers.listen

theorem answerPoll_held {w : Worker} (held : w.Held) (server : w.server = true) (answers : Answers) :
    (w.answerPoll answers).Held := by
  unfold answerPoll
  split
  · exact (give_free _ _ _ _).held
  split
  · exact (give_free _ _ _ _).held
  split
  · exact becomeReady_held held server answers
  split
  · exact (give_free _ _ _ _).held
  · exact held

theorem relisten_held {w : Worker} (held : w.Held) (ready : w.ready = true) (answers : Answers) :
    (w.relisten answers).Held := by
  unfold relisten
  split
  · exact listen_held held ready answers.relisten
  · exact held

theorem pollServer_held {w : Worker} (held : w.Held) (answers : Answers) : (w.pollServer answers).Held := by
  have drained := w.drain_same answers.drained
  have known : (w.drain answers.drained).Same ((w.drain answers.drained).setServer answers.status) :=
    ⟨rfl, rfl, rfl, rfl, rfl, rfl, rfl, rfl, Iff.rfl⟩
  unfold pollServer
  split
  · exact held
  rename_i live
  have server : w.server = true := Bool.eq_true_of_not_eq_false live
  have answered := answerPoll_held (held.same (drained.trans known)) (drained.server.trans server) answers
  dsimp only
  split
  · rename_i both
    exact (relisten_held answered both.2 answers).same (advertise_same _ answers)
  · exact answered

theorem reportFailure_same (w : Worker) (answers : Answers) : w.Same (w.reportFailure answers) := by
  unfold reportFailure
  dsimp only
  split
  · exact ⟨rfl, rfl, rfl, rfl, rfl, rfl, rfl, rfl, Iff.rfl⟩
  · exact .refl w

theorem look_same (w : Worker) (browsing : Bool) (answers : Answers) : w.Same (w.look browsing answers) := by
  unfold look
  split
  · obtain ⟨listener, responder⟩ :=
      w.discovery.scan_sockets w.state.rooms w.state.discoveryWarning answers.scan
    exact ⟨rfl, rfl, rfl, rfl, rfl, listener, responder, rfl, Iff.rfl⟩
  · exact ⟨rfl, rfl, rfl, rfl, rfl, rfl, rfl, rfl, Iff.rfl⟩

theorem publishDiscovery_same (w : Worker) (browsing : Bool) (answers : Answers) :
    w.Same (w.publishDiscovery browsing answers) := ⟨rfl, rfl, rfl, rfl, rfl, rfl, rfl, rfl, Iff.rfl⟩

theorem tell_same (w : Worker) (answers : Answers) : w.Same (w.tell answers) := by
  unfold tell
  dsimp only
  split
  · exact ⟨rfl, rfl, rfl, rfl, rfl, rfl, rfl, rfl, Iff.rfl⟩
  · exact .refl w

/-- A retry closes the sockets, and the worker may listen again. -/
theorem retryDiscovery_held {w : Worker} (held : w.Held) (interfaces : List String) :
    (w.retryDiscovery interfaces).Held where
  hosting := held.hosting
  released := held.released
  ready := held.ready
  logFile := held.logFile
  listener := nofun
  paired := rfl
  readyFile := held.readyFile
  resolution := held.resolution

theorem confirm_held {w : Worker} (held : w.Held) (published : SessionView) : (w.confirm published).Held := by
  unfold confirm
  split
  · rename_i connecting
    exact
      { hosting := held.hosting
        released := fun _ => held.released (by rw [connecting.2.1]; rfl)
        ready := held.ready
        logFile := held.logFile
        listener := held.listener
        paired := held.paired
        readyFile := held.readyFile
        resolution := held.resolution }
  · exact held

end Worker

/-- A command that has been taken is carried out by a worker that holds nothing. -/
theorem State.process_held (s : State) (w : Worker) (c : Command) (pending : List Command) (answers : Answers)
    {w' : Worker} (next : (s.process w c pending answers).worker = some w') : w'.Held := by
  have free := w.take_free c answers
  unfold State.process at next
  dsimp only at next
  split at next
  · cases next
    exact Worker.moved_held free.held _
  · cases next
    exact Worker.host_held free (w.take_resolution c answers) _ _ _
  · cases next
    exact Worker.Free.held { free with }

/-- Whatever the worker meets on its way to the next place. -/
theorem State.run_held (s : State) {w : Worker} (there : s.worker = some w) (held : w.Held) (answers : Answers)
    {w' : Worker} (next : (s.run w answers).worker = some w') : w'.Held := by
  unfold State.run at next
  split at next
  case h_1 =>
    cases next
    exact { held with listener := nofun, paired := rfl }
  case h_2 =>
    split at next
    · cases next
      have free := w.stopServer_free answers
      exact Worker.Free.held { free with }
    · cases next
      exact Worker.moved_held held _
  case h_3 =>
    cases next
    exact Worker.moved_held held _
  case h_4 pending place =>
    dsimp only at next
    cases next
    split
    · exact Worker.moved_held (Worker.retryDiscovery_held held _) _
    · exact Worker.moved_held held _
  case h_5 =>
    cases next
    exact Worker.moved_held held _
  case h_6 => exact s.process_held w _ _ answers next
  case h_7 =>
    cases next
    exact Worker.moved_held held _
  case h_8 =>
    cases next
    exact Worker.readResolution_held held
  case h_9 =>
    cases next
    exact Worker.moved_held held _
  case h_10 =>
    cases next
    exact Worker.moved_held ((Worker.pollServer_held held answers).same (Worker.reportFailure_same _ answers)) _
  case h_11 =>
    cases next
    exact Worker.moved_held (held.same (w.look_same s.browsing answers)) _
  case h_12 =>
    cases next
    exact Worker.moved_held
      (held.same ((w.publishDiscovery_same s.browsing answers).trans (Worker.tell_same _ answers))) _
  case h_13 =>
    cases next
    exact (Worker.confirm_held held s.published).same ⟨rfl, rfl, rfl, rfl, rfl, rfl, rfl, rfl, Iff.rfl⟩
  case h_14 =>
    cases next
    exact Worker.moved_held held _
  case h_15 =>
    cases next
    exact Worker.moved_held held _
  case h_16 =>
    cases there.symm.trans next
    exact held

/-- The invariant of the session: whoever works, holds what its state says. -/
def State.Held (s : State) : Prop := ∀ w, s.worker = some w → w.Held

theorem State.enqueue_worker (s : State) (c : Command) : (s.enqueue c).2.worker = s.worker := by
  unfold State.enqueue
  split
  · rfl
  split <;> rfl

theorem State.Held.absent {s : State} (none : s.worker = none) : s.Held := by
  intro w there
  exact nomatch none.symm.trans there

theorem State.Held.start {s : State} (held : s.Held) (failed : Option String) : (s.start failed).Held := by
  unfold State.start
  split
  · exact held
  cases failed with
  | none =>
    intro w this
    cases this
    exact Worker.Free.held ⟨rfl, rfl, rfl, rfl, rfl, rfl, rfl⟩
  | some what => exact held

theorem State.Held.finish {s : State} (held : s.Held) : s.finish.Held := by
  unfold State.finish
  split
  · rename_i c _
    intro w this
    exact held w ((s.enqueue_worker c).symm.trans this)
  · exact held
  · exact held
  · exact held

/-- A resolver task shares its result and nothing else. -/
theorem State.Held.resolved {s : State} (held : s.Held) (id : Nat) (answer : Except String String) :
    (s.resolved id answer).Held := by
  unfold State.resolved
  split
  · exact held
  intro w this
  obtain ⟨v, was, rfl⟩ := Option.map_eq_some_iff.mp this
  exact (held v was).same ⟨rfl, rfl, rfl, rfl, rfl, rfl, rfl, rfl, Option.map_eq_none_iff⟩

theorem State.Held.step {s : State} (held : s.Held) (e : State.Action) : (s.step e).Held := by
  cases e with
  | start failed => exact held.start failed
  | call call failed => exact held.start failed
  | finish => exact held.finish
  | shutdown => exact held
  | joined => exact .absent rfl
  | connected =>
    simp only [State.step, State.connected]
    split <;> exact held
  | takeConnection =>
    simp only [State.step, State.takeConnection]
    split
    · exact held
    split <;> exact held
  | worker answers =>
    cases there : s.worker with
    | none => simpa only [State.step, there] using held
    | some w =>
      simp only [State.step, there]
      exact fun w' next => s.run_held there (held w there) answers next
  | resolved id answer => exact held.resolved id answer

theorem reachable_held {s : State} (reach : State.system.Reachable s) : s.Held := by
  refine reach.invariant ?_ fun _ e _ _ _ held => held.step e
  rintro s rfl
  exact .absent rfl

/-- What is open matches the state of the session, wherever the worker is. -/
theorem session_resources {s : State} (reach : State.system.Reachable s) {w : Worker} (there : s.worker = some w) :
    (w.state.hosting = true ↔ w.server = true) ∧
      (w.state.state.released = true →
        w.server = false ∧ w.logFile = false ∧ w.discovery.listener = false ∧ w.discovery.responder = false) ∧
      (w.discovery.listener = true → w.server = true ∧ w.ready = true) ∧
      (w.discovery.listener = true ↔ w.discovery.responder = true) ∧
      (w.ownsReadyFile = true → w.ready = true) := by
  have held := reachable_held reach w there
  have closed (dead : w.server = false) : w.discovery.listener = false := by
    by_contra listening
    have server := held.ready (held.listener (Bool.eq_true_of_not_eq_false listening))
    exact nomatch dead.symm.trans server
  refine ⟨by rw [held.hosting], fun released => ?_, fun listening => ?_, by rw [held.paired], held.readyFile⟩
  · have dead := held.released released
    have unlogged : w.logFile = false := by
      by_contra logging
      exact nomatch dead.symm.trans (held.logFile (Bool.eq_true_of_not_eq_false logging))
    exact ⟨dead, unlogged, closed dead, held.paired.trans (closed dead)⟩
  · have ready := held.listener listening
    exact ⟨held.ready ready, ready⟩

/-! A room whose owner has joined, with the worker behind its first poll. -/

def sampleJoined : Answers where
  now := 1000
  status := { session := 7, port := 12000, ownerJoined := true }
  listen := { now := 1000, interfaces := ["192.168.0.2"] }

def sampleOpening : List State.Action :=
  [State.Action.call (.enqueue { type := .host }) none, .finish] ++ List.replicate 9 (.worker sampleJoined)

def sampleOpen : State := sampleOpening.foldl State.step {}

theorem sampleOpen_reachable : State.system.Reachable sampleOpen := by
  have admits : State.system.Admits (fun _ _ => True) {} sampleOpening := by decide +kernel
  exact (System.Reach.start rfl).run admits

/-- Here the listener is open, and so is all that it needs. -/
theorem sampleOpen_listens :
    ∃ w, sampleOpen.worker = some w ∧ w.discovery.listener = true ∧ w.state.hosting = true ∧ w.ready = true ∧
      w.discovery.responder = true := by
  have opened : sampleOpen.worker.any fun w => w.discovery.listener := by decide +kernel
  obtain ⟨w, there, listening⟩ := (Option.any_eq_true _ _).mp opened
  obtain ⟨hosting, _, listener, paired, _⟩ := session_resources sampleOpen_reachable there
  obtain ⟨server, ready⟩ := listener listening
  exact ⟨w, there, listening, hosting.mpr server, ready, paired.mp listening⟩

end FzeroVs.Session
