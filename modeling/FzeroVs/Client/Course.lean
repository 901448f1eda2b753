import FzeroVs.Client.Accept

namespace FzeroVs.Client

/-- The track and the league that the client shows. -/
def course (c : Client) : UInt8 × UInt8 := (c.track, c.league)

theorem send_course (c : Client) (packet : Packet) : (c.send packet).course = c.course :=
  send_keeps course (fun _ _ => rfl) c packet

theorem queue_course (c : Client) (command : List UInt8) : (c.queue command).course = c.course := by
  unfold queue
  split <;> rfl

theorem request_course (c : Client) (command : UInt8) (data : List UInt8) :
    (c.request command data).course = c.course := by
  unfold request
  split <;> rfl

theorem pulse_course (c : Client) (t : UInt64) : (c.pulse t).course = c.course := by
  have served : (c.serve t).course = c.course := serve_keeps course (fun _ _ _ _ _ _ _ _ _ => rfl) c t
  unfold pulse
  dsimp only
  generalize (if (c.serve t).id = none then (10000000 : UInt64) else 5000000) = limit
  split
  · exact served
  · exact served

theorem select_course (c : Client) : c.select.course = c.course := by
  unfold select
  split
  · exact c.queue_course _
  · rfl

theorem load_course (c : Client) (ram : UInt32 → UInt8) : (c.load ram).course = c.course := by
  unfold load
  split
  · exact c.queue_course _
  · rfl

theorem finish_course (c : Client) : c.finish.course = c.course := by
  unfold finish
  split
  · exact c.queue_course _
  · rfl

theorem sendState_course (c : Client) (ram : UInt32 → UInt8) : (c.sendState ram).course = c.course :=
  send_course _ _

theorem frame_course (c : Client) (ram : UInt32 → UInt8) (due : Bool) (now : UInt64) :
    (c.frame ram due now).course = c.course := by
  unfold frame
  split
  · rfl
  split
  · rfl
  split
  · rfl
  · dsimp only
    split <;> split <;> rfl
  · dsimp only
    split
    · exact c.select_course
    · exact c.select_course
  · rfl
  · split
    · dsimp only
      split
      · exact c.load_course ram
      · exact c.load_course ram
    · rfl
  · split
    · exact c.finish_course
    · exact c.sendState_course ram
  · split <;> rfl
  · split
    · exact c.queue_course _
    · rfl
  · rfl

theorem receiveSnapshot_course (c : Client) (t : UInt64) (p : Packet) :
    (c.receiveSnapshot t p).course = c.course ∨
      ∃ v, readPicture p = some v ∧ c.receiveSnapshot t p = c.accept t p v := by
  unfold receiveSnapshot
  split
  · exact .inl rfl
  next v read =>
    split
    · exact .inr ⟨v, read, rfl⟩
    · exact .inl rfl

theorem hear_course (c : Client) (t : UInt64) (data : List UInt8) : (c.hear t data).course = c.course ∨
    ∃ p v, readPicture p = some v ∧ c.hear t data = c.accept t p v := by
  unfold hear
  split
  · split
    next p decoded =>
      unfold receive
      split
      · exact .inl rfl
      split
      · split <;> exact .inl rfl
      split
      · exact .inl rfl
      split
      · exact .inl rfl
      split
      · exact .inl (c.send_course _)
      split
      · dsimp only
        split <;> exact .inl rfl
      rcases c.receiveSnapshot_course t p with same | ⟨v, read, same⟩
      · exact .inl same
      · exact .inr ⟨p, v, read, same⟩
    next => exact .inl rfl
  · exact .inl rfl

theorem detach_course (c : Client) : c.detach.course = c.course :=
  detach_keeps course (fun _ _ _ _ _ _ => rfl) c

/-- Not even a new socket changes the course. -/
theorem attach_course (c : Client) (random : Option UInt64) (now : UInt64) :
    (c.attach random now).course = c.course := by
  have left := c.detach_course
  unfold attach
  dsimp only
  split
  · split
    · exact left
    · exact left
  · exact left

/-- The course is taken from snapshots and from nowhere else. -/
theorem step_course (c : Client) (e : Event) : (c.step e).course = c.course ∨
    ∃ t p v, readPicture p = some v ∧ c.step e = c.accept t p v := by
  cases e with
  | attach random now => exact .inl (c.attach_course random now)
  | request command data => exact .inl (c.request_course command data)
  | hear t data =>
    rcases c.hear_course t data with same | ⟨p, v, read, same⟩
    · exact .inl same
    · exact .inr ⟨t, p, v, read, same⟩
  | pulse t =>
    refine .inl ?_
    simp only [step]
    split
    · rfl
    · exact c.pulse_course t
  | frame ram due now => exact .inl (c.frame_course ram due now)
  | detach => exact .inl c.detach_course

theorem accept_course (c : Client) (t : UInt64) (p : Packet) (v : Picture) :
    (c.accept t p v).course = (v.track, v.league) := by
  have shows := c.accept_shows t p v
  rw [course, shows.track, shows.league]

end FzeroVs.Client
