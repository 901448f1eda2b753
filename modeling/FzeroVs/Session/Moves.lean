import FzeroVs.Session.Run

namespace FzeroVs.Session

/-- The commands that the worker has taken out of the queue and not begun. -/
def Worker.pending (w : Worker) : List Command :=
  match w.place with
  | .retry pending | .commands pending | .offer _ pending => pending
  | _ => []

/-- The connection that the worker is about to hand over. -/
def Worker.offered (w : Worker) : Option Connection :=
  match w.place with
  | .offer connection _ | .offerResolved connection => some connection
  | _ => none

/-- The connection is what the command asks for. -/
def CreatedFor (o : Connection) (c : Command) : Prop :=
  match c.type with
  | .stop => False
  | .host => o.address = c.host.localAddress ∧ o.key = c.host.key ∧ o.ownerNonce ≠ 0
  | .join =>
    o.key = c.key ∧ o.ownerNonce = 0 ∧
      ∃ host port ip, parseAddress c.address = .lookup host port ∧ o.address = ip ++ ":" ++ port

/-- The command that is carried out stays the same, and its place too. The
worker may have given up on its resolver task. -/
structure Worker.Keeps (w w' : Worker) : Prop where
  operation : w'.operation = w.operation
  current : w'.current = w.current
  joinKey : w'.joinKey = w.joinKey
  place : w'.place = w.place
  resolution : w'.resolution = w.resolution ∨ w'.resolution = none

namespace Worker.Keeps

theorem refl (w : Worker) : w.Keeps w := ⟨rfl, rfl, rfl, rfl, .inl rfl⟩

theorem trans {w₁ w₂ w₃ : Worker} (first : w₁.Keeps w₂) (second : w₂.Keeps w₃) : w₁.Keeps w₃ where
  operation := second.operation.trans first.operation
  current := second.current.trans first.current
  joinKey := second.joinKey.trans first.joinKey
  place := second.place.trans first.place
  resolution := by
    rcases second.resolution with same | none
    · rw [same]
      exact first.resolution
    · exact .inr none

end Worker.Keeps

namespace Worker

theorem drain_keeps (w : Worker) (events : List Event) : w.Keeps (w.drain events) := by
  refine List.foldlRecOn events push (.refl w) fun v keeps e _ => ?_
  have pushed : v.Keeps (v.push e) := ⟨rfl, rfl, rfl, rfl, .inl rfl⟩
  exact keeps.trans pushed

theorem stopServer_keeps (w : Worker) (answers : Answers) :
    w.Keeps (w.stopServer answers) ∧ (w.stopServer answers).resolution = none := by
  have drained := w.drain_keeps answers.closing
  unfold stopServer
  split
  · exact ⟨{ drained with resolution := .inr rfl }, rfl⟩
  · exact ⟨⟨rfl, rfl, rfl, rfl, .inr rfl⟩, rfl⟩

theorem give_keeps (w : Worker) (state : Stage) (message : String) (answers : Answers) :
    w.Keeps (w.give state message answers) := by
  obtain ⟨stopped, _⟩ := stopServer_keeps { w with state := { w.state with message := message } } answers
  exact { stopped with }

theorem listen_keeps (w : Worker) (answers : ListenAnswers) : w.Keeps (w.listen answers) :=
  ⟨rfl, rfl, rfl, rfl, .inl rfl⟩

theorem advertise_keeps (w : Worker) (answers : Answers) : w.Keeps (w.advertise answers) := by
  unfold advertise
  split
  · exact ⟨rfl, rfl, rfl, rfl, .inl rfl⟩
  · exact .refl w

theorem becomeReady_keeps (w : Worker) (answers : Answers) : w.Keeps (w.becomeReady answers) := by
  unfold becomeReady
  split
  · have given := give_keeps { w with ownsReadyFile := answers.readyOpened || w.ownsReadyFile }
      .error "Cannot write host readiness file" answers
    exact { given with }
  · exact ⟨rfl, rfl, rfl, rfl, .inl rfl⟩

theorem answerPoll_keeps (w : Worker) (answers : Answers) : w.Keeps (w.answerPoll answers) := by
  unfold answerPoll
  split
  · exact w.give_keeps _ _ _
  split
  · exact w.give_keeps _ _ _
  split
  · exact w.becomeReady_keeps _
  split
  · exact w.give_keeps _ _ _
  · exact .refl w

theorem relisten_keeps (w : Worker) (answers : Answers) : w.Keeps (w.relisten answers) := by
  unfold relisten
  split
  · exact w.listen_keeps _
  · exact .refl w

theorem setServer_keeps (w : Worker) (status : ServerStatus) : w.Keeps (w.setServer status) :=
  ⟨rfl, rfl, rfl, rfl, .inl rfl⟩

theorem pollServer_keeps (w : Worker) (answers : Answers) : w.Keeps (w.pollServer answers) := by
  unfold pollServer
  split
  · exact .refl w
  have answered : w.Keeps (((w.drain answers.drained).setServer answers.status).answerPoll answers) :=
    ((w.drain_keeps _).trans (setServer_keeps _ _)).trans (answerPoll_keeps _ _)
  dsimp only
  split
  · exact answered.trans ((relisten_keeps _ _).trans (advertise_keeps _ _))
  · exact answered

theorem reportFailure_keeps (w : Worker) (answers : Answers) : w.Keeps (w.reportFailure answers) := by
  unfold reportFailure
  dsimp only
  split
  · exact ⟨rfl, rfl, rfl, rfl, .inl rfl⟩
  · exact .refl w

theorem tell_keeps (w : Worker) (answers : Answers) : w.Keeps (w.tell answers) := by
  unfold tell
  dsimp only
  split
  · exact ⟨rfl, rfl, rfl, rfl, .inl rfl⟩
  · exact .refl w

theorem look_keeps (w : Worker) (browsing : Bool) (answers : Answers) : w.Keeps (w.look browsing answers) := by
  unfold look
  cases browsing <;> exact ⟨rfl, rfl, rfl, rfl, .inl rfl⟩

theorem retryDiscovery_keeps (w : Worker) (interfaces : List String) : w.Keeps (w.retryDiscovery interfaces) :=
  ⟨rfl, rfl, rfl, rfl, .inl rfl⟩

theorem publishDiscovery_keeps (w : Worker) (browsing : Bool) (answers : Answers) :
    w.Keeps (w.publishDiscovery browsing answers) := ⟨rfl, rfl, rfl, rfl, .inl rfl⟩

theorem confirm_keeps (w : Worker) (published : SessionView) : w.Keeps (w.confirm published) := by
  unfold confirm
  split
  · exact ⟨rfl, rfl, rfl, rfl, .inl rfl⟩
  · exact .refl w

end Worker

/-- The worker goes on without a word about connections. -/
structure Worker.Goes (s : State) (w w' : Worker) : Prop where
  operation : w'.operation = w.operation
  current : w'.current = w.current
  joinKey : w'.joinKey = w.joinKey
  resolution : w'.resolution = w.resolution ∨ w'.resolution = none
  pending : w'.pending = w.pending
  offered : w'.offered = none
  before : w.offered = none
  leaves : w'.place = .finish → s.quitting = true
  stays : w.place ≠ .finish ∧ w.place ≠ .ended ∧ w'.place ≠ .ended

/-- The worker begins with a command. -/
structure Worker.Takes (w : Worker) (c : Command) (pending : List Command) (w' : Worker) : Prop where
  first : w.pending = c :: pending
  before : w.offered = none
  operation : w'.operation = c.generation
  current : w'.current = some c
  pending : w'.pending = pending
  stays : w'.place ≠ .finish ∧ w'.place ≠ .ended

/-- What the worker can do in one step. -/
inductive Moves (s : State) (w : Worker) : State → Prop
  | go {w' : Worker} (published : SessionView) (discoveryRetry : Bool) (goes : w.Goes s w') :
    Moves s w { s with worker := some w', published := published, discoveryRetry := discoveryRetry }
  | intake {w' : Worker} (operation : w'.operation = w.operation) (current : w'.current = w.current)
    (joinKey : w'.joinKey = w.joinKey) (resolution : w'.resolution = w.resolution) (place : w.place = .intake)
    (pending : w'.pending = s.commands) (offered : w'.offered = none)
    (stays : w'.place ≠ .finish ∧ w'.place ≠ .ended) :
    Moves s w { s with commands := [], worker := some w' }
  | take {w' : Worker} {c : Command} {pending : List Command} (takes : w.Takes c pending w')
    (offered : w'.offered = none) (resolution : w'.resolution = none) :
    Moves s w { s with worker := some w' }
  | host {w' : Worker} {c : Command} {pending : List Command} {o : Connection} (takes : w.Takes c pending w')
    (offered : w'.offered = some o) (resolution : w'.resolution = none) (generation : o.generation = c.generation)
    (created : CreatedFor o c) : Moves s w { s with worker := some w' }
  | join {w' : Worker} {c : Command} {pending : List Command} (answers : Answers) (takes : w.Takes c pending w')
    (type : c.type = .join) (offered : w'.offered = none) (joinKey : w'.joinKey = c.key)
    (resolution : w'.resolution = some (s.resolve c.address answers).2) :
    Moves s w { (s.resolve c.address answers).1 with worker := some w' }
  | answered {w' : Worker} {r : Resolution} (operation : w'.operation = w.operation) (current : w'.current = w.current)
    (joinKey : w'.joinKey = w.joinKey) (waiting : w.resolution = some r) (done : r.done = true) (error : r.error = "")
    (resolution : w'.resolution = none) (place : w.place = .resolution) (pending : w'.pending = [])
    (offered : w'.offered = some ⟨r.address, w.joinKey, 0, w.operation⟩)
    (stays : w'.place ≠ .finish ∧ w'.place ≠ .ended) : Moves s w { s with worker := some w' }
  | offer {w' : Worker} {o : Connection} (operation : w'.operation = w.operation) (current : w'.current = w.current)
    (joinKey : w'.joinKey = w.joinKey) (resolution : w'.resolution = w.resolution) (pending : w'.pending = w.pending)
    (before : w.offered = some o) (offered : w'.offered = none) (stays : w'.place ≠ .finish ∧ w'.place ≠ .ended) :
    Moves s w { s with
      connection := if w.operation = s.generation then some o else s.connection
      worker := some w' }
  | finish (place : w.place = .finish) :
    Moves s w { s with
      published := w.state
      connection := none
      commands := []
      worker := some { w with place := .ended } }
  | ended (place : w.place = .ended) : Moves s w s

/-- Asking for an address touches the resolver tasks only. -/
theorem State.resolve_frame (s : State) (address : String) (answers : Answers) :
    ∃ resolvers count, (s.resolve address answers).1 = { s with resolvers := resolvers, nextResolution := count } := by
  unfold State.resolve
  dsimp only
  split
  · exact ⟨_, _, rfl⟩
  split
  · exact ⟨_, _, rfl⟩
  split <;> exact ⟨_, _, rfl⟩

/-- From these places the worker has nothing in hand. -/
def Place.plain : Place → Bool
  | .start | .loop | .intake | .resolution | .serve | .scan | .report | .publication | .wait => true
  | _ => false

theorem Place.plain_empty {w : Worker} (plain : w.place.plain = true) : w.pending = [] ∧ w.offered = none := by
  unfold Worker.pending Worker.offered
  cases place : w.place <;> simp [Place.plain, place] at plain ⊢

/-- The worker goes on with the same commands before it, and with none in hand. -/
theorem Worker.Keeps.passes {s : State} {w w' : Worker} (keeps : w.Keeps w') {next : Place}
    (pending : Worker.pending { w' with place := next } = w.pending)
    (offered : Worker.offered { w' with place := next } = none) (before : w.offered = none)
    (leaves : next = .finish → s.quitting = true) (stays : w.place ≠ .finish ∧ w.place ≠ .ended ∧ next ≠ .ended) :
    w.Goes s { w' with place := next } where
  operation := keeps.operation
  current := keeps.current
  joinKey := keeps.joinKey
  resolution := keeps.resolution
  pending := pending
  offered := offered
  before := before
  leaves := leaves
  stays := stays

theorem Worker.Keeps.goes {s : State} {w w' : Worker} (keeps : w.Keeps w') (before : w.place.plain = true)
    {next : Place} (after : next.plain = true) : w.Goes s { w' with place := next } := by
  obtain ⟨nothing, none⟩ := Place.plain_empty before
  obtain ⟨pending, offered⟩ := Place.plain_empty (w := { w' with place := next }) after
  have other {here : Place} (plain : here.plain = true) (place : Place) (busy : place.plain = false) : here ≠ place := by
    rintro rfl
    exact Bool.false_ne_true (busy.symm.trans plain)
  apply keeps.passes
  case pending => rw [pending, nothing]
  case offered => exact offered
  case before => exact none
  case leaves => exact fun finish => absurd finish (other after .finish rfl)
  case stays => exact ⟨other before .finish rfl, other before .ended rfl, other after .ended rfl⟩

section

variable {s : State} {w : Worker} (answers : Answers)

theorem take_takes {c : Command} {pending : List Command} (place : w.place = .commands (c :: pending))
    {w' : Worker} (operation : w'.operation = (w.take c answers).operation)
    (current : w'.current = (w.take c answers).current) (next : w'.pending = pending)
    (stays : w'.place ≠ .finish ∧ w'.place ≠ .ended) : w.Takes c pending w' where
  first := by rw [Worker.pending, place]
  before := by rw [Worker.offered, place]
  operation := operation
  current := current
  pending := next
  stays := stays

/-- A room is created with a connection for its owner, or not at all. -/
theorem createRoom_cases (w : Worker) (pending : List Command) (answers : Answers) :
    w.Keeps (w.createRoom pending answers) ∨
      (w.createRoom pending answers).operation = w.operation ∧ (w.createRoom pending answers).current = w.current ∧
        (w.createRoom pending answers).resolution = w.resolution ∧ (w.createRoom pending answers).place =
          .offer ⟨w.options.localAddress, w.options.key, answers.nonce, w.operation⟩ pending := by
  unfold Worker.createRoom
  split
  · exact .inl ⟨rfl, rfl, rfl, rfl, .inl rfl⟩
  split
  · exact .inl ⟨rfl, rfl, rfl, rfl, .inl rfl⟩
  split
  · have given := Worker.give_keeps { w with server := true } .error "Cannot open host log file" answers
    exact .inl { given with }
  · exact .inr ⟨rfl, rfl, rfl, rfl⟩

theorem named_same (options : HostOptions) :
    (Worker.named options).localAddress = options.localAddress ∧ (Worker.named options).key = options.key := by
  unfold Worker.named
  split <;> exact ⟨rfl, rfl⟩

theorem host_moves {c : Command} {pending : List Command} (place : w.place = .commands (c :: pending))
    (type : c.type = .host) :
    Moves s w { s with worker := some ((w.take c answers).host c.host pending answers) } := by
  have forgotten : (w.take c answers).resolution = none := (w.stopServer_keeps answers).2
  unfold Worker.host
  dsimp only
  split
  · exact .take (take_takes answers place rfl rfl rfl ⟨nofun, nofun⟩) rfl forgotten
  rename_i identity
  rcases createRoom_cases { (w.take c answers).setState .starting with
      options := Worker.named c.host, place := .commands pending } pending answers with
    keeps | ⟨operation, current, resolution, offers⟩
  · refine .take (take_takes answers place keeps.operation keeps.current ?_ ?_) ?_ ?_
    · rw [Worker.pending, keeps.place]
    · rw [keeps.place]
      exact ⟨nofun, nofun⟩
    · rw [Worker.offered, keeps.place]
    · exact keeps.resolution.elim (fun same => same.trans forgotten) fun none => none
  · obtain ⟨address, key⟩ := named_same c.host
    let o : Connection :=
      ⟨(Worker.named c.host).localAddress, (Worker.named c.host).key, answers.nonce, c.generation⟩
    have created : CreatedFor o c := by
      rw [CreatedFor, type]
      exact ⟨address, key, identity⟩
    refine .host (take_takes answers place operation current ?_ ?_) ?_ (resolution.trans forgotten) rfl created
    · rw [Worker.pending, offers]
    · rw [offers]
      exact ⟨nofun, nofun⟩
    · rw [Worker.offered, offers]
      rfl

theorem process_moves {c : Command} {pending : List Command} (place : w.place = .commands (c :: pending)) :
    Moves s w (s.process w c pending answers) := by
  have forgotten : (w.take c answers).resolution = none := (w.stopServer_keeps answers).2
  unfold State.process
  cases type : c.type with
  | stop => exact .take (take_takes answers place rfl rfl rfl ⟨nofun, nofun⟩) rfl forgotten
  | host => exact host_moves answers place type
  | join => exact .join answers (take_takes answers place rfl rfl rfl ⟨nofun, nofun⟩) type rfl rfl rfl

theorem readResolution_moves (place : w.place = .resolution) : Moves s w { s with worker := some w.readResolution } := by
  have plain : w.place.plain = true := by rw [place]; rfl
  unfold Worker.readResolution
  split
  · exact .go _ _ ((Worker.Keeps.refl w).goes plain rfl)
  rename_i r waiting
  split
  · rename_i done
    dsimp only
    split
    · have failed : w.Keeps ({ w with resolution := none }.fail r.error) := ⟨rfl, rfl, rfl, rfl, .inr rfl⟩
      exact .go _ _ (failed.goes plain rfl)
    · rename_i error
      exact .answered rfl rfl rfl waiting done (not_not.mp error) rfl place rfl rfl ⟨nofun, nofun⟩
  · exact .go _ _ ((Worker.Keeps.refl w).goes plain rfl)

theorem leave_goes (place : w.place = .loop) (quitting : s.quitting = true) :
    w.Goes s { (w.stopServer answers).setState .idle with place := .finish } := by
  obtain ⟨stopped, forgotten⟩ := w.stopServer_keeps answers
  constructor
  case operation => exact stopped.operation
  case current => exact stopped.current
  case joinKey => exact stopped.joinKey
  case resolution => exact .inr forgotten
  case pending => rw [Worker.pending, Worker.pending, place]
  case offered => rfl
  case before => rw [Worker.offered, place]
  case leaves => exact fun _ => quitting
  case stays => exact ⟨by rw [place]; exact nofun, by rw [place]; exact nofun, nofun⟩

theorem retry_goes {pending : List Command} (place : w.place = .retry pending) {w' : Worker} (keeps : w.Keeps w') :
    w.Goes s { w' with place := .commands pending } := by
  apply keeps.passes
  case pending => rw [Worker.pending, Worker.pending, place]
  case offered => rfl
  case before => rw [Worker.offered, place]
  case leaves => exact nofun
  case stays => exact ⟨by rw [place]; exact nofun, by rw [place]; exact nofun, nofun⟩

theorem done_goes (place : w.place = .commands []) : w.Goes s { w with place := .resolution } := by
  apply (Worker.Keeps.refl w).passes
  case pending => rw [Worker.pending, Worker.pending, place]
  case offered => rfl
  case before => rw [Worker.offered, place]
  case leaves => exact nofun
  case stays => exact ⟨by rw [place]; exact nofun, by rw [place]; exact nofun, nofun⟩

/-- One step of the worker is one of these. -/
theorem run_moves (s : State) (w : Worker) (answers : Answers) : Moves s w (s.run w answers) := by
  have start : w.Keeps { w with
      state := { w.state with events := s.published.events }, discovery := { networks := answers.interfaces } } :=
    ⟨rfl, rfl, rfl, rfl, .inl rfl⟩
  unfold State.run
  cases place : w.place with
  | start => exact .go _ _ (start.goes (by rw [place]; rfl) rfl)
  | loop =>
    dsimp only
    split
    · exact .go _ _ (leave_goes answers place ‹_›)
    · exact .go _ _ ((Worker.Keeps.refl w).goes (by rw [place]; rfl) rfl)
  | intake =>
    exact .intake rfl rfl rfl rfl place rfl rfl ⟨nofun, nofun⟩
  | retry pending =>
    dsimp only
    split
    · exact .go _ _ (retry_goes place (w.retryDiscovery_keeps answers.interfaces))
    · exact .go _ _ (retry_goes place (.refl w))
  | commands pending =>
    cases pending with
    | nil => exact .go _ _ (done_goes place)
    | cons c pending => exact process_moves answers place
  | offer connection pending =>
    exact .offer rfl rfl rfl rfl (by rw [Worker.pending, Worker.pending, place]) (by rw [Worker.offered, place]) rfl
      ⟨nofun, nofun⟩
  | resolution => exact readResolution_moves place
  | offerResolved connection =>
    exact .offer rfl rfl rfl rfl (by rw [Worker.pending, Worker.pending, place]) (by rw [Worker.offered, place]) rfl
      ⟨nofun, nofun⟩
  | serve =>
    have served := (w.pollServer_keeps answers).trans (Worker.reportFailure_keeps _ answers)
    exact .go _ _ (served.goes (by rw [place]; rfl) rfl)
  | scan => exact .go _ _ ((w.look_keeps s.browsing answers).goes (by rw [place]; rfl) rfl)
  | report =>
    have told := (w.publishDiscovery_keeps s.browsing answers).trans (Worker.tell_keeps _ answers)
    refine .go _ _ (told.goes (by rw [place]; rfl) ?_)
    split <;> rfl
  | publication =>
    have confirmed := w.confirm_keeps s.published
    have published : w.Keeps { w.confirm s.published with lastPublish := answers.now } := { confirmed with }
    exact .go _ _ (published.goes (by rw [place]; rfl) rfl)
  | wait => exact .go _ _ ((Worker.Keeps.refl w).goes (by rw [place]; rfl) rfl)
  | finish => exact .finish place
  | ended => exact .ended place

end

end FzeroVs.Session
