import Nestrs.Chat.Room

/-!
# What is said in the room

Where the messages of the room come from, and who gets them. The guard of `message` looks at the
field `author` of the payload; the method takes what `serde` makes of the same payload, and that is
a message for an array as well, in which the guard finds no author. A message is recorded first and
broadcast later, so that the order of the broadcasts need not be that of the history.

Results:
* `sound_run`: what is dispatched has passed its guard, what is recorded is broadcast before the
  method returns;
* **`history_moderated`**: every message of the history has come in a text and passed the guard, and
  none comes twice; an author that is banned gets in by an array, and only so;
* **`no_message_missed`**: a socket that stays gets every broadcast once, in order, and with the
  history misses nothing.
-/

namespace Nestrs.Chat

open Nestrs.Ws Nestrs.Lib

variable {serde : Serde} {events : List Event} {s s' : App} {i : Nat} {session : Session}

/-! ## A message under way -/

/-- A text has been read and its dispatch is not through. -/
def underWay : Pc Value → Bool
  | .guarding _ _ | .around _ _ | .dispatching _ => true
  | _ => false

theorem underWay_rendered (event : String) (reply : WsReply Value) :
    underWay ((endpoint serde).rendered event reply) = false := by
  unfold GatewayEndpoint.rendered
  cases reply with
  | reply data =>
    simp only
    split
    · rfl
    · rfl
  | none => rfl
  | error message => rfl

/-- What the label of a move says of the move. -/
theorem move_of_label {move : Move} {label : Label Namespace Value}
    (h : s.label serde session move = some label) :
    (∀ message, label = .read message → move = .read message) ∧
    (label = .dispatch ↔ move = .dispatch) ∧ (label = .send ↔ move = .send) ∧
    (∀ result, label = .guarded result → move = .guard ∧
      ∀ envelope left, session.pc = .guarding envelope left →
        result = ModeratedGuard.canActivate envelope.data) ∧
    ∀ reply, label = .replies reply → ∀ envelope, session.pc = .dispatching envelope →
      s.reply serde session envelope = some reply := by
  cases move with
  | guard =>
    unfold App.label at h
    simp only at h
    split at h
    · rename_i envelope left hpc
      cases h
      refine ⟨nofun, ⟨nofun, nofun⟩, ⟨nofun, nofun⟩,
        fun result hresult => ⟨rfl, fun envelope' left' hpc' => ?_⟩, nofun⟩
      rw [hpc] at hpc'
      cases hpc'
      cases hresult
      rfl
    · cases h
  | reply =>
    unfold App.label at h
    simp only at h
    split at h
    · rename_i envelope hpc
      obtain ⟨reply, hreply, rfl⟩ := Option.map_eq_some_iff.mp h
      refine ⟨nofun, ⟨nofun, nofun⟩, ⟨nofun, nofun⟩, nofun,
        fun reply' hsame envelope' hpc' => ?_⟩
      rw [hpc] at hpc'
      cases hpc'
      cases hsame
      exact hreply
    · cases h
  | read message =>
    cases h
    exact ⟨fun message' h => by cases h; rfl, ⟨nofun, nofun⟩, ⟨nofun, nofun⟩, nofun, nofun⟩
  | dispatch =>
    cases h
    exact ⟨nofun, ⟨fun _ => rfl, fun _ => rfl⟩, ⟨nofun, nofun⟩, nofun, nofun⟩
  | send =>
    cases h
    exact ⟨nofun, ⟨nofun, nofun⟩, ⟨fun _ => rfl, fun _ => rfl⟩, nofun, nofun⟩
  | _ =>
    cases h
    exact ⟨nofun, ⟨nofun, nofun⟩, ⟨nofun, nofun⟩, nofun, nofun⟩

/-- **What a step of the loop makes of a message**: it is read, passes its guard, or is dispatched;
any other step has none under way afterwards, and one that was has been refused or answered. -/
theorem turn_cases {move : Move} {label : Label Namespace Value} {pc : Pc Value} {isOpen : Bool}
    (hlabel : s.label serde session move = some label) (hpanics : label ≠ .panics)
    (hnext : (endpoint serde).next isOpen session.pc label = some pc)
    (hplain : ∀ envelope b, session.pc ≠ .around envelope b) :
    (∃ text envelope, session.pc = .reading ∧ move = .read (.text text) ∧
      serde.json.fromStr text = .ok envelope ∧
      pc = .guarding envelope ((endpoint serde).guards envelope.event)) ∨
    (∃ envelope left, session.pc = .guarding envelope (left + 1) ∧ move = .guard ∧
      ModeratedGuard.canActivate envelope.data = .ok () ∧ pc = .guarding envelope left) ∨
    (∃ envelope, session.pc = .guarding envelope 0 ∧ move = .dispatch ∧
      pc = .dispatching envelope) ∨
    underWay pc = false ∧ move ≠ .dispatch ∧
      (∀ envelope left, session.pc = .guarding envelope left →
        ModeratedGuard.canActivate envelope.data ≠ .ok ()) ∧
      ∀ envelope, session.pc = .dispatching envelope →
        ∃ reply, s.reply serde session envelope = some reply := by
  obtain ⟨hread, hdispatch, -, hguarded, hreplies⟩ := move_of_label hlabel
  have hquiet : ∀ pc', session.pc = pc' → underWay pc' = false → label ≠ .dispatch →
      move ≠ .dispatch ∧ (∀ envelope left, session.pc = .guarding envelope left →
        ModeratedGuard.canActivate envelope.data ≠ .ok ()) ∧
      ∀ envelope, session.pc = .dispatching envelope →
        ∃ reply, s.reply serde session envelope = some reply := by
    intro pc' hpc hidle hne
    refine ⟨fun hmove => hne (hdispatch.mpr hmove), fun envelope left h => ?_, fun envelope h => ?_⟩
    · rw [← hpc, h] at hidle
      cases hidle
    · rw [← hpc, h] at hidle
      cases hidle
  unfold GatewayEndpoint.next at hnext
  split at hnext
  · rename_i hpc
    cases hnext
    exact .inr (.inr (.inr ⟨rfl, hquiet _ hpc rfl nofun⟩))
  · rename_i hpc
    cases hnext
    exact .inr (.inr (.inr ⟨rfl, hquiet _ hpc rfl nofun⟩))
  · rename_i hpc
    cases hnext
    exact .inr (.inr (.inr ⟨rfl, hquiet _ hpc rfl nofun⟩))
  · rename_i message hpc
    cases hnext
    unfold GatewayEndpoint.received
    cases message with
    | text text =>
      simp only
      split
      · rename_i envelope htext
        exact .inl ⟨text, envelope, hpc, hread _ rfl, htext, rfl⟩
      · exact .inr (.inr (.inr ⟨rfl, hquiet _ hpc rfl nofun⟩))
    | _ => exact .inr (.inr (.inr ⟨rfl, hquiet _ hpc rfl nofun⟩))
  · rename_i envelope left hpc
    cases hnext
    obtain ⟨hmove, hresult⟩ := hguarded _ rfl
    exact .inr (.inl ⟨envelope, left, hpc, hmove, (hresult _ _ hpc).symm, rfl⟩)
  · rename_i envelope left reason hpc
    cases hnext
    refine .inr (.inr (.inr ⟨rfl, fun hmove => ?_, fun envelope' left' h => ?_,
      fun envelope' h => ?_⟩))
    · cases hdispatch.mpr hmove
    · rw [← (hguarded _ rfl).2 _ _ h]
      exact nofun
    · cases hpc.symm.trans h
  · cases hnext
  · rename_i envelope hpc
    cases hnext
    exact .inr (.inr (.inl ⟨envelope, hpc, hdispatch.mp rfl, rfl⟩))
  · rename_i hpc
    exact absurd hpc (hplain _ _)
  · rename_i hpc
    exact absurd hpc (hplain _ _)
  · rename_i envelope reply hpc
    cases hnext
    refine .inr (.inr (.inr ⟨underWay_rendered _ _, fun hmove => ?_, fun envelope' left h => ?_,
      fun envelope' h => ?_⟩))
    · cases hdispatch.mpr hmove
    · cases hpc.symm.trans h
    · exact ⟨reply, hreplies _ rfl _ h⟩
  · rename_i hpc
    split at hnext
    · cases hnext
      exact .inr (.inr (.inr ⟨rfl, hquiet _ hpc rfl nofun⟩))
    · cases hnext
      exact .inr (.inr (.inr ⟨rfl, hquiet _ hpc rfl nofun⟩))
  · rename_i hpc
    cases hnext
    exact .inr (.inr (.inr ⟨rfl, hquiet _ hpc rfl nofun⟩))
  · rename_i hpc
    cases hnext
    exact .inr (.inr (.inr ⟨rfl, hquiet _ hpc rfl nofun⟩))
  · rename_i hpc
    cases hnext
    exact .inr (.inr (.inr ⟨rfl, hquiet _ hpc rfl nofun⟩))
  · rename_i hpc
    cases hnext
    exact .inr (.inr (.inr ⟨rfl, hquiet _ hpc rfl nofun⟩))
  · exact absurd rfl hpanics
  · exact absurd rfl hpanics
  · exact absurd rfl hpanics
  · exact absurd rfl hpanics
  · cases hnext

/-- What is true of a socket along a run: what is dispatched has passed its guard, and what is
recorded and not broadcast belongs to the message that is being dispatched. -/
structure Session.Sound (serde : Serde) (session : Session) : Prop where
  plain : ∀ envelope b, session.pc ≠ .around envelope b
  passed : ∀ envelope, session.pc = .guarding envelope 0 ∨ session.pc = .dispatching envelope →
    envelope.event = "message" → ModeratedGuard.canActivate envelope.data = .ok ()
  recorded : ∀ message, session.progress = .recorded message →
    ∃ envelope call, session.pc = .dispatching envelope ∧
      dispatch serde envelope = .ok (.onMessage call)

/-- With nothing under way and nothing recorded there is nothing to say. -/
theorem sound_of_quiet (hpc : underWay session.pc = false)
    (hprogress : ∀ message, session.progress ≠ .recorded message) : session.Sound serde where
  plain envelope b h := by rw [h] at hpc; cases hpc
  passed envelope h := by
    rcases h with h | h
    · rw [h] at hpc
      cases hpc
    · rw [h] at hpc
      cases hpc
  recorded message h := absurd h (hprogress message)

theorem sound_task (h : session.Sound serde) {move : Move} {label : Label Namespace Value}
    {pc : Pc Value} {isOpen : Bool} (hlabel : s.label serde session move = some label)
    (hpanics : label ≠ .panics)
    (hnext : (endpoint serde).next isOpen session.pc label = some pc) :
    Session.Sound serde
      { session with pc, progress := App.progressAfter session.progress move } := by
  -- a method that has recorded does not return before it has broadcast
  have hnot : ∀ message, session.progress = .recorded message → ∀ envelope,
      session.pc = .dispatching envelope → s.reply serde session envelope = none := by
    intro message hmessage envelope hpc
    obtain ⟨envelope', call, hpc', hcall⟩ := h.recorded message hmessage
    rw [hpc] at hpc'
    cases hpc'
    unfold App.reply
    rw [hcall, hmessage]
    rfl
  have hidle : (∀ envelope, session.pc ≠ .dispatching envelope) →
      ∀ message, session.progress ≠ .recorded message := by
    intro hpc message hmessage
    obtain ⟨envelope, -, hpc', -⟩ := h.recorded message hmessage
    exact hpc envelope hpc'
  rcases turn_cases hlabel hpanics hnext h.plain with ⟨text, envelope, hpc, rfl, -, rfl⟩ |
    ⟨envelope, left, hpc, rfl, hpassed, rfl⟩ | ⟨envelope, hpc, rfl, rfl⟩ |
    ⟨hquiet, hmove, -, hreply⟩
  · have hprogress := hidle fun envelope h => by
      rw [hpc] at h
      cases h
    refine ⟨fun _ _ h => (by cases h), fun envelope' hpc' hevent => ?_,
      fun message h => absurd h (hprogress message)⟩
    rcases hpc' with hpc' | hpc'
    · obtain ⟨rfl, hnone⟩ := Pc.guarding.inj hpc'
      simp [endpoint, hevent] at hnone
    · cases hpc'
  · have hprogress := hidle fun envelope h => by
      rw [hpc] at h
      cases h
    refine ⟨fun _ _ h => (by cases h), fun envelope' hpc' hevent => ?_,
      fun message h => absurd h (hprogress message)⟩
    rcases hpc' with hpc' | hpc'
    · cases hpc'
      exact hpassed
    · cases hpc'
  · refine ⟨fun _ _ h => (by cases h), fun envelope' hpc' hevent => ?_,
      fun _ h => (by cases h)⟩
    rcases hpc' with hpc' | hpc'
    · cases hpc'
    · cases hpc'
      exact h.passed envelope (.inl hpc) hevent
  · refine sound_of_quiet hquiet fun message hmessage => ?_
    have hsame : App.progressAfter session.progress move = session.progress := by
      cases move with
      | dispatch => exact absurd rfl hmove
      | _ => rfl
    have hmessage' : session.progress = .recorded message := hsame.symm.trans hmessage
    obtain ⟨envelope, -, hpc, -⟩ := h.recorded message hmessage'
    obtain ⟨reply, hreply⟩ := hreply envelope hpc
    rw [hnot message hmessage' envelope hpc] at hreply
    cases hreply

theorem sound_step (h : ∀ session ∈ s.sessions, session.Sound serde) {e : Event}
    (hstep : s.step serde e = some s') : ∀ session ∈ s'.sessions, session.Sound serde := by
  cases e with
  | upgrade =>
    cases hstep
    intro session hsession
    rcases List.mem_append.mp hsession with hsession | hsession
    · exact h session hsession
    · rw [List.mem_singleton.mp hsession]
      exact sound_of_quiet rfl nofun
  | task i move =>
    obtain ⟨session, label, pc, hi, hlabel, hnext, -, hpanics, -, rfl⟩ := step_task_cases hstep
    intro session' hsession'
    rcases List.mem_or_eq_of_mem_set hsession' with hsession' | rfl
    · exact h session' hsession'
    · exact sound_task (h session (List.mem_of_getElem? hi)) hlabel hpanics hnext
  | record i =>
    obtain ⟨session, envelope, message, hi, hpc, -, hdispatch, rfl⟩ := step_record_cases hstep
    intro session' hsession'
    rcases List.mem_or_eq_of_mem_set hsession' with hsession' | rfl
    · exact h session' hsession'
    · have hsound := h session (List.mem_of_getElem? hi)
      exact ⟨hsound.plain, hsound.passed, fun _ _ => ⟨envelope, message, hpc, hdispatch⟩⟩
  | announce i =>
    obtain ⟨session, stored, hi, -, rfl⟩ := step_announce_cases hstep
    intro session' hsession'
    rcases List.mem_or_eq_of_mem_set hsession' with hsession' | rfl
    · exact h session' hsession'
    · have hsound := h session (List.mem_of_getElem? hi)
      exact ⟨hsound.plain, hsound.passed, nofun⟩
  | typing i =>
    obtain ⟨session, envelope, message, hi, -, -, -, rfl⟩ := step_typing_cases hstep
    intro session' hsession'
    rcases List.mem_or_eq_of_mem_set hsession' with hsession' | rfl
    · exact h session' hsession'
    · have hsound := h session (List.mem_of_getElem? hi)
      exact ⟨hsound.plain, hsound.passed, nofun⟩
  | elsewhere a =>
    obtain ⟨-, -, rfl⟩ := step_elsewhere_cases hstep
    exact h

/-- **Every socket of a run is sound.** -/
theorem sound_run (hrun : App.init.run serde events = some s) :
    ∀ session ∈ s.sessions, session.Sound serde :=
  foldlM_invariant (P := fun s : App => ∀ session ∈ s.sessions, session.Sound serde)
    (fun _ _ _ h hstep => sound_step h hstep) events (fun _ h => absurd h List.not_mem_nil) hrun

/-! ## Where the history comes from -/

/-- The message that an envelope puts into the history: its guard lets it pass, its method takes
it. -/
def Serde.posted (serde : Serde) (envelope : WsEnvelope Value) : Option ChatMessage :=
  if envelope.event = "message" ∧ ModeratedGuard.canActivate envelope.data = .ok () then
    match serde.sendMessage envelope.data with
    | .ok message => some ⟨message.author, message.text⟩
    | .error _ => none
  else none

/-- The event reads a text with the message. -/
def Event.posts (serde : Serde) (message : ChatMessage) : Event → Bool
  | .task _ (.read (.text text)) =>
    match serde.json.fromStr text with
    | .ok envelope => serde.posted envelope = some message
    | .error _ => false
  | _ => false

/-- The socket has read the message and has not recorded it yet. -/
def Session.brings (serde : Serde) (message : ChatMessage) (session : Session) : Bool :=
  match session.pc, session.progress with
  | .guarding envelope _, _ => serde.posted envelope = some message
  | .dispatching envelope, .entered => serde.posted envelope = some message
  | _, _ => false

theorem posted_eq_some_iff {envelope : WsEnvelope Value} {message : ChatMessage} :
    serde.posted envelope = some message ↔
      envelope.event = "message" ∧ ModeratedGuard.canActivate envelope.data = .ok () ∧
      serde.sendMessage envelope.data = .ok ⟨message.author, message.text⟩ := by
  unfold Serde.posted
  split
  · rename_i hpasses
    cases hsend : serde.sendMessage envelope.data with
    | ok sent =>
      simp only [Option.some.injEq, Except.ok.injEq, hpasses, true_and]
      constructor
      · rintro rfl
        rfl
      · rintro rfl
        rfl
    | error err => simp
  · rename_i hpasses
    constructor
    · exact nofun
    · rintro ⟨hevent, hguard, -⟩
      exact absurd ⟨hevent, hguard⟩ hpasses

theorem dispatch_onMessage_iff {envelope : WsEnvelope Value} {message : SendMessage} :
    dispatch serde envelope = .ok (.onMessage message) ↔
      envelope.event = "message" ∧ serde.sendMessage envelope.data = .ok message := by
  unfold dispatch
  cases serde.sendMessage envelope.data with
  | ok sent =>
    simp only [Except.mapError, Except.map]
    split
    · rename_i hevent
      simp [hevent]
    · rename_i hevent
      simp only [hevent, false_and, iff_false]
      split
      · nofun
      · split
        · nofun
        · split
          · nofun
          · nofun
  | error err =>
    simp only [Except.mapError, Except.map]
    split
    · simp
    · rename_i hevent
      simp only [hevent, false_and, iff_false]
      split
      · nofun
      · split
        · nofun
        · split
          · nofun
          · nofun

/-- Who is banned gets in by an array, in which the guard looks for no author. -/
theorem posted_banned {envelope : WsEnvelope Value} {message : ChatMessage}
    (h : serde.posted envelope = some message) (hbanned : message.author = "banned") :
    envelope.data = .array [.string "banned", .string message.text] := by
  obtain ⟨-, hguard, hsend⟩ := posted_eq_some_iff.mp h
  unfold Serde.sendMessage at hsend
  split at hsend
  · split at hsend
    · rename_i author text hauthor htext
      cases hsend
      -- the guard and the method read the same field of an object
      unfold ModeratedGuard.canActivate at hguard
      rw [hauthor, hbanned, if_pos rfl] at hguard
      cases hguard
    · cases hsend
  · rename_i author text hdata
    cases hsend
    rw [hdata, ← hbanned]
  · cases hsend

theorem next_read {isOpen : Bool} {pc pc' : Pc Value} {message : Incoming}
    (h : (endpoint serde).next isOpen pc (.read message) = some pc') :
    pc' = (endpoint serde).received message := by
  cases pc with
  | reading =>
    cases h
    rfl
  | awaiting hook =>
    cases hook with
    | onConnect => cases h
    | onDisconnect => cases h
  | guarding envelope left =>
    cases left with
    | zero => cases h
    | succ left => cases h
  | around envelope b =>
    cases b with
    | false => cases h
    | true => cases h
  | _ => cases h

theorem brings_of_quiet (h : underWay session.pc = false) (message : ChatMessage) :
    session.brings serde message = false := by
  unfold Session.brings
  split
  · rename_i hpc
    rw [hpc] at h
    cases h
  · rename_i hpc _
    rw [hpc] at h
    cases h
  · rfl

/-- What has been refused or answered is not to be recorded. -/
theorem brings_of_settled {message : ChatMessage}
    (hguard : ∀ envelope left, session.pc = .guarding envelope left →
      ModeratedGuard.canActivate envelope.data ≠ .ok ())
    (hreply : ∀ envelope, session.pc = .dispatching envelope →
      ∃ reply, s.reply serde session envelope = some reply) :
    session.brings serde message = false := by
  unfold Session.brings
  split
  · rename_i envelope left hpc
    refine decide_eq_false fun hposted => ?_
    exact hguard envelope left hpc (posted_eq_some_iff.mp hposted).2.1
  · rename_i envelope hpc hprogress
    refine decide_eq_false fun hposted => ?_
    obtain ⟨hevent, -, hsend⟩ := posted_eq_some_iff.mp hposted
    obtain ⟨reply, hreply⟩ := hreply envelope hpc
    unfold App.reply at hreply
    rw [dispatch_onMessage_iff.mpr ⟨hevent, hsend⟩, hprogress] at hreply
    cases hreply
  · rfl

/-- A text that leaves nothing under way has no message. -/
theorem posts_of_quiet {move : Move} {label : Label Namespace Value} {pc : Pc Value}
    {isOpen : Bool} (hlabel : s.label serde session move = some label)
    (hnext : (endpoint serde).next isOpen session.pc label = some pc)
    (hquiet : underWay pc = false) (message : ChatMessage) :
    Event.posts serde message (.task i move) = false := by
  unfold Event.posts
  split
  · rename_i text heq
    cases heq
    cases hlabel
    obtain rfl := next_read hnext
    unfold GatewayEndpoint.received at hquiet
    split
    · rename_i envelope htext
      have htext' : (endpoint serde).json.fromStr text = .ok envelope := htext
      simp only [htext'] at hquiet
      cases hquiet
    · rfl
  · rfl

/-- A step of a task takes a message on to its method, and loses none. -/
theorem brings_task (h : session.Sound serde) {move : Move} {label : Label Namespace Value}
    {pc : Pc Value} {isOpen : Bool} (hlabel : s.label serde session move = some label)
    (hpanics : label ≠ .panics) (hnext : (endpoint serde).next isOpen session.pc label = some pc)
    (message : ChatMessage) :
    (Session.brings serde message
      { session with pc, progress := App.progressAfter session.progress move }).toNat =
      (session.brings serde message).toNat +
        (Event.posts serde message (.task i move)).toNat := by
  rcases turn_cases hlabel hpanics hnext h.plain with ⟨text, envelope, hpc, rfl, htext, rfl⟩ |
    ⟨envelope, left, hpc, rfl, -, rfl⟩ | ⟨envelope, hpc, rfl, rfl⟩ |
    ⟨hquiet, -, hguard, hreply⟩
  · simp [Session.brings, Event.posts, hpc, htext]
  · simp [Session.brings, Event.posts, hpc]
  · simp [Session.brings, Event.posts, hpc, App.progressAfter]
  · rw [brings_of_settled hguard hreply, posts_of_quiet hlabel hnext hquiet, brings_of_quiet hquiet]
    rfl

/-- The account, when one socket is put back. -/
theorem account_put (hi : s.sessions[i]? = some session) {session' : Session}
    (hsessions : s'.sessions = s.sessions.set i session') (message : ChatMessage) {n : Nat}
    (h : s'.history.count message + (session'.brings serde message).toNat =
      s.history.count message + (session.brings serde message).toNat + n) :
    s'.history.count message + s'.sessions.countP (Session.brings serde message) =
      s.history.count message + s.sessions.countP (Session.brings serde message) + n := by
  have hput := countP_put hi session' (Session.brings serde message)
  rw [hsessions]
  omega

/-- **Every event keeps the account of a message**: it is in the history or with a socket as often
as it has been read. -/
theorem account_step (h : ∀ session ∈ s.sessions, session.Sound serde) {e : Event}
    (hstep : s.step serde e = some s') (message : ChatMessage) :
    s'.history.count message + s'.sessions.countP (Session.brings serde message) =
      s.history.count message + s.sessions.countP (Session.brings serde message) +
        (e.posts serde message).toNat := by
  cases e with
  | upgrade =>
    cases hstep
    rw [List.countP_append]
    rfl
  | task i move =>
    obtain ⟨session, label, pc, hi, hlabel, hnext, -, hpanics, -, rfl⟩ := step_task_cases hstep
    refine account_put hi rfl message ?_
    rw [brings_task (i := i) (h session (List.mem_of_getElem? hi)) hlabel hpanics hnext]
    exact (Nat.add_assoc _ _ _).symm
  | record i =>
    obtain ⟨session, envelope, sent, hi, hpc, hprogress, hdispatch, rfl⟩ := step_record_cases hstep
    obtain ⟨hevent, hsend⟩ := dispatch_onMessage_iff.mp hdispatch
    have hpassed := (h session (List.mem_of_getElem? hi)).passed envelope (.inr hpc) hevent
    have hposted : serde.posted envelope = some ⟨sent.author, sent.text⟩ :=
      posted_eq_some_iff.mpr ⟨hevent, hpassed, hsend⟩
    refine account_put hi rfl message ?_
    simp only [Session.brings, Event.posts, hpc, hprogress, hposted, List.count_append,
      List.count_singleton, Option.some.injEq, Bool.toNat_false]
    by_cases hsame : (⟨sent.author, sent.text⟩ : ChatMessage) = message
    · simp [hsame]
    · simp [hsame]
  | announce i =>
    obtain ⟨session, stored, hi, hprogress, rfl⟩ := step_announce_cases hstep
    obtain ⟨envelope, sent, hpc, -⟩ := (h session (List.mem_of_getElem? hi)).recorded _ hprogress
    refine account_put hi rfl message ?_
    simp [Session.brings, Event.posts, hpc, hprogress]
  | typing i =>
    obtain ⟨session, envelope, sent, hi, hpc, hprogress, hdispatch, rfl⟩ := step_typing_cases hstep
    refine account_put hi rfl message ?_
    have hnot : serde.posted envelope ≠ some message := by
      intro hposted
      obtain ⟨hevent, -, hsend⟩ := posted_eq_some_iff.mp hposted
      rw [dispatch_onMessage_iff.mpr ⟨hevent, hsend⟩] at hdispatch
      cases hdispatch
    simp [Session.brings, Event.posts, hpc, hprogress, hnot]
  | elsewhere a =>
    obtain ⟨-, -, rfl⟩ := step_elsewhere_cases hstep
    rfl

theorem account_run (hrun : App.init.run serde events = some s) (message : ChatMessage) :
    s.history.count message + s.sessions.countP (Session.brings serde message) =
      events.countP (Event.posts serde message) := by
  induction events using List.reverseRecOn generalizing s with
  | nil =>
    cases hrun
    rfl
  | append_singleton events e ih =>
    obtain ⟨s₁, hs₁, hstep⟩ := (app_run_snoc events e).mp hrun
    rw [account_step (sound_run hs₁) hstep, ih hs₁, List.countP_append, List.countP_singleton]
    cases e.posts serde message with
    | false => rfl
    | true => rfl

/-- **Where the history comes from.** In every run a message is in the history, or still with a
socket that has read it, exactly as often as texts that carry it and pass the guard have been read:
none is recorded twice, none is lost, none made up. What is in the history has passed the guard; but
an author that is banned gets in by an array, and only so. -/
theorem history_moderated (hrun : App.init.run serde events = some s) (message : ChatMessage) :
    s.history.count message + s.sessions.countP (Session.brings serde message) =
      events.countP (Event.posts serde message) ∧
    (message ∈ s.history → ∃ i text envelope, .task i (.read (.text text)) ∈ events ∧
      serde.json.fromStr text = .ok envelope ∧ envelope.event = "message" ∧
      ModeratedGuard.canActivate envelope.data = .ok () ∧
      serde.sendMessage envelope.data = .ok ⟨message.author, message.text⟩ ∧
      (message.author = "banned" →
        envelope.data = .array [.string "banned", .string message.text])) := by
  have haccount := account_run hrun message
  refine ⟨haccount, fun hmessage => ?_⟩
  have hcount : 0 < events.countP (Event.posts serde message) := by
    have := List.count_pos_iff.mpr hmessage
    omega
  obtain ⟨e, he, hposts⟩ := List.countP_pos_iff.mp hcount
  unfold Event.posts at hposts
  split at hposts
  · rename_i i text
    split at hposts
    · rename_i envelope htext
      have hposted := of_decide_eq_true hposts
      obtain ⟨hevent, hguard, hsend⟩ := posted_eq_some_iff.mp hposted
      exact ⟨i, text, envelope, he, htext, hevent, hguard, hsend, posted_banned hposted⟩
    · cases hposts
  · cases hposts

/-- A socket comes in and writes as an author that is banned, in an array. -/
def intrusion : List Event := enters 0 ++ posts 0 bannedText

theorem intrusion_recorded : ∃ s, App.init.run roomSerde intrusion = some s ∧
    s.history = [⟨"banned", "hi"⟩] ∧
    s.history.count ⟨"banned", "hi"⟩ +
      s.sessions.countP (Session.brings roomSerde ⟨"banned", "hi"⟩) = 1 :=
  ⟨_, rfl, rfl,
    (history_moderated (show App.init.run roomSerde intrusion = some _ from rfl) _).1.trans rfl⟩

/-! ## Who gets what -/

/-- What is said to a socket. -/
inductive Said where
  | message (message : ChatMessage)
  | typing (message : SendMessage)
  | reply (frame : Frame)

/-- Its frame, unless it cannot be rendered. -/
def Said.frame (serde : Serde) : Said → Option Frame
  | .message m => serde.encode "message" m.toValue
  | .typing m => serde.encode "typing" m.toValue
  | .reply frame => some frame

def Said.message? : Said → Option ChatMessage
  | .message m => some m
  | _ => none

/-- The message that is recorded and not broadcast. -/
def Session.stored (session : Session) : Option ChatMessage :=
  match session.progress with
  | .recorded message => some message
  | _ => none

namespace App

/-- The messages that are recorded and not broadcast. -/
def pending (s : App) : List ChatMessage := s.sessions.filterMap Session.stored

/-- What an event says to the socket `i`: the broadcasts, and its own replies. -/
def tells (serde : Serde) (s : App) (i : Nat) : Event → Option Said
  | .announce j => (s.sessions[j]?.bind Session.stored).map .message
  | .typing j =>
    match s.sessions[j]?.map Session.pc with
    | some (.dispatching envelope) =>
      match dispatch serde envelope with
      | .ok (.typing message) => some (.typing message)
      | _ => none
    | _ => none
  | .task j .send =>
    match s.sessions[j]?.map Session.pc with
    | some (.replying frame) => if j = i then some (.reply frame) else none
    | _ => none
  | _ => none

/-- What a run says to the socket `i`. -/
def heard (serde : Serde) (i : Nat) : App → List Event → List Said
  | _, [] => []
  | s, e :: events =>
    (s.tells serde i e).toList ++
      match s.step serde e with
      | some s' => heard serde i s' events
      | none => []

end App

theorem heard_snoc {s₁ : App} {more : List Event} (hmore : s.run serde more = some s₁) (e : Event) :
    s.heard serde i (more ++ [e]) = s.heard serde i more ++ (s₁.tells serde i e).toList := by
  induction more generalizing s with
  | nil =>
    cases hmore
    simp only [List.nil_append, App.heard]
    cases s₁.step serde e with
    | none => simp
    | some s' => simp
  | cons first more ih =>
    unfold App.run at hmore
    rw [List.foldlM_cons, Option.bind_eq_bind, Option.bind_eq_some_iff] at hmore
    obtain ⟨s₂, hfirst, hmore⟩ := hmore
    simp only [List.cons_append, App.heard, hfirst, ih hmore, List.append_assoc]

/-- The messages recorded and not broadcast, when one socket is put back. -/
theorem pending_put (hi : s.sessions[i]? = some session) {session' : Session}
    (hsessions : s'.sessions = s.sessions.set i session') :
    (s'.pending ++ session.stored.toList).Perm (s.pending ++ session'.stored.toList) := by
  obtain ⟨hlt, hget⟩ := List.getElem?_eq_some_iff.mp hi
  obtain ⟨before, after', hsplit, -, hset⟩ : ∃ before after',
      s.sessions = before ++ s.sessions[i] :: after' ∧ before.length = i ∧
        s.sessions.set i session' = before ++ session' :: after' := List.exists_of_set hlt
  rw [hget] at hsplit
  have hput : ∀ session₁ : Session, (before ++ session₁ :: after').filterMap Session.stored =
      before.filterMap Session.stored ++ (session₁.stored.toList ++
        after'.filterMap Session.stored) := by
    intro session₁
    rw [List.filterMap_append, List.filterMap_cons]
    cases session₁.stored with
    | none => rfl
    | some message => rfl
  unfold App.pending
  rw [hsessions, hset, hput, hsplit, hput]
  refine List.perm_iff_count.mpr fun message => ?_
  simp only [List.count_append]
  omega

theorem stored_task (h : session.Sound serde) {move : Move} {label : Label Namespace Value}
    {pc : Pc Value} {isOpen : Bool} (hlabel : s.label serde session move = some label)
    (hnext : (endpoint serde).next isOpen session.pc label = some pc) :
    Session.stored { session with pc, progress := App.progressAfter session.progress move } =
      session.stored := by
  cases move with
  | dispatch =>
    cases hlabel
    cases hprogress : session.progress with
    | recorded message =>
      obtain ⟨envelope, -, hpc, -⟩ := h.recorded message hprogress
      rw [hpc] at hnext
      cases hnext
    | _ => simp [Session.stored, App.progressAfter, hprogress]
  | _ => rfl

theorem perm_put (h : s.history.Perm (s.announced ++ s.pending))
    (hi : s.sessions[i]? = some session) {session' : Session}
    (hsessions : s'.sessions = s.sessions.set i session')
    (hcount : ∀ message,
      s'.history.count message + s.announced.count message +
          session.stored.toList.count message =
        s.history.count message + s'.announced.count message +
          session'.stored.toList.count message) :
    s'.history.Perm (s'.announced ++ s'.pending) := by
  refine List.perm_iff_count.mpr fun message => ?_
  have hold := h.count_eq message
  have hpending := (pending_put hi hsessions).count_eq message
  have hput := hcount message
  rw [List.count_append] at hold hpending ⊢
  rw [List.count_append] at hpending
  omega

/-- **Every event keeps this**: what is in the history has been broadcast, or is about to be. -/
theorem perm_step (hsound : ∀ session ∈ s.sessions, session.Sound serde)
    (h : s.history.Perm (s.announced ++ s.pending)) {e : Event} (hstep : s.step serde e = some s') :
    s'.history.Perm (s'.announced ++ s'.pending) := by
  cases e with
  | upgrade =>
    cases hstep
    refine h.trans (List.Perm.of_eq ?_)
    unfold App.pending
    rw [List.filterMap_append]
    exact congrArg (s.announced ++ ·) (List.append_nil _).symm
  | task i move =>
    obtain ⟨session, label, pc, hi, hlabel, hnext, -, -, -, rfl⟩ := step_task_cases hstep
    refine perm_put h hi rfl fun message => ?_
    rw [stored_task (hsound session (List.mem_of_getElem? hi)) hlabel hnext]
  | record i =>
    obtain ⟨session, envelope, sent, hi, -, hprogress, -, rfl⟩ := step_record_cases hstep
    refine perm_put h hi rfl fun message => ?_
    simp only [Session.stored, hprogress, Option.toList, List.count_nil, List.count_append]
    omega
  | announce i =>
    obtain ⟨session, stored, hi, hprogress, rfl⟩ := step_announce_cases hstep
    refine perm_put h hi rfl fun message => ?_
    simp only [Session.stored, hprogress, Option.toList, List.count_nil, List.count_append]
    omega
  | typing i =>
    obtain ⟨session, envelope, sent, hi, -, hprogress, -, rfl⟩ := step_typing_cases hstep
    refine perm_put h hi rfl fun message => ?_
    simp only [Session.stored, hprogress]
  | elsewhere a =>
    obtain ⟨-, -, rfl⟩ := step_elsewhere_cases hstep
    exact h

theorem perm_run (hrun : App.init.run serde events = some s) :
    s.history.Perm (s.announced ++ s.pending) := by
  induction events using List.reverseRecOn generalizing s with
  | nil =>
    cases hrun
    exact .refl _
  | append_singleton events e ih =>
    obtain ⟨s₁, hs₁, hstep⟩ := (app_run_snoc events e).mp hrun
    exact perm_step (sound_run hs₁) (ih hs₁) hstep

/-- The history is appended to; what is broadcast is told to every socket. -/
theorem grows_step {e : Event} (hstep : s.step serde e = some s') (i : Nat) :
    s.history <+: s'.history ∧
      s'.announced = s.announced ++ (s.tells serde i e).toList.filterMap Said.message? := by
  cases e with
  | upgrade =>
    cases hstep
    exact ⟨List.prefix_refl _, (List.append_nil _).symm⟩
  | task j move =>
    obtain ⟨session, label, pc, -, -, -, -, -, -, rfl⟩ := step_task_cases hstep
    refine ⟨List.prefix_refl _, ?_⟩
    have hnone : (s.tells serde i (.task j move)).toList.filterMap Said.message? = [] := by
      unfold App.tells
      split
      · rename_i heq
        cases heq
      · rename_i heq
        cases heq
      · split
        · split
          · rfl
          · rfl
        · rfl
      · rfl
    rw [hnone, List.append_nil]
  | record j =>
    obtain ⟨session, envelope, sent, -, -, -, -, rfl⟩ := step_record_cases hstep
    exact ⟨List.prefix_append _ _, (List.append_nil _).symm⟩
  | announce j =>
    obtain ⟨session, stored, hj, hprogress, rfl⟩ := step_announce_cases hstep
    refine ⟨List.prefix_refl _, ?_⟩
    simp [App.tells, hj, Session.stored, hprogress, Said.message?]
  | typing j =>
    obtain ⟨session, envelope, sent, hj, hpc, -, hdispatch, rfl⟩ := step_typing_cases hstep
    refine ⟨List.prefix_refl _, ?_⟩
    simp [App.tells, hj, hpc, hdispatch, Said.message?]
  | elsewhere a =>
    obtain ⟨-, -, rfl⟩ := step_elsewhere_cases hstep
    exact ⟨List.prefix_refl _, (List.append_nil _).symm⟩

theorem outboxes_joined (id : ConnId) (move : Move) (w : World Namespace) :
    ((App.joined id move).foldl (fun w a => (w.step a).2) w).outboxes = w.outboxes := by
  unfold App.joined
  split
  · rfl
  · rfl

/-- What a step of a task tells is the reply among the steps of the registries. -/
theorem tells_task {j : Nat} {move : Move} {label : Label Namespace Value}
    (hj : s.sessions[j]? = some session) (hid : session.id = j)
    (hlabel : s.label serde session move = some label) (i : Nat) :
    s.tells serde i (.task j move) =
      ((session.task s.world).action (endpoint serde) label).bind fun
        | .reply _ id frame => if id = i then some (.reply frame) else none
        | _ => none := by
  obtain ⟨-, -, hsend, -, -⟩ := move_of_label hlabel
  by_cases hmove : move = .send
  · obtain rfl := hsend.mpr hmove
    subst hmove
    simp only [App.tells, hj, Option.map_some, Task.action, Session.task]
    cases session.pc with
    | replying frame => simp [hid]
    | _ => rfl
  · have hlabel' : label ≠ .send := fun h => hmove (hsend.mp h)
    have hnone : s.tells serde i (.task j move) = none := by
      unfold App.tells
      split
      · rename_i heq
        cases heq
      · rename_i heq
        cases heq
      · rename_i heq
        cases heq
        exact absurd rfl hmove
      · rfl
    rw [hnone]
    cases label with
    | send => exact absurd rfl hlabel'
    | _ => rfl

/-- **What an event does to the outboxes**: one step of the registries at most, which addresses to
each socket what the event tells it. -/
theorem tells_cases (h : Served serde events s) {e : Event} (hstep : s.step serde e = some s') :
    (s'.world.outboxes = s.world.outboxes ∧ ∀ i, s.tells serde i e = none) ∨
    ∃ a, s.world.Enabled a ∧ s'.world.outboxes = (s.world.step a).2.outboxes ∧
      ∀ i conn, addressed .global i conn a = (s.tells serde i e).bind (Said.frame serde) := by
  cases e with
  | upgrade =>
    cases hstep
    exact .inr ⟨.allocate .global, trivial, rfl, fun i conn => rfl⟩
  | task j move =>
    obtain ⟨session, label, pc, hj, hlabel, -, hstage, -, -, rfl⟩ := step_task_cases hstep
    obtain ⟨w, labels, hrun, -⟩ := h.tasks j session hj
    have hstage' : Stage.Step (Stage.of (session.task s.world).pc) label
        (Stage.of { session.task s.world with pc }.pc) := hstage
    have heffect := effect_eq_step (traced_run hrun) hstage'
    simp only [outboxes_joined]
    cases haction : (session.task s.world).action (endpoint serde) label with
    | none =>
      rw [haction] at heffect
      refine .inl ⟨congrArg World.outboxes heffect, fun i => ?_⟩
      rw [tells_task hj (h.ids j session hj) hlabel, haction]
      rfl
    | some a =>
      rw [haction] at heffect
      refine .inr ⟨a, heffect.1, congrArg World.outboxes heffect.2, fun i conn => ?_⟩
      rw [tells_task hj (h.ids j session hj) hlabel, haction]
      unfold Task.action at haction
      split at haction
      · cases haction
        rfl
      · split at haction
        · cases haction
          by_cases hsame : (session.task s.world).id = i
          · simp [addressed, endpoint, hsame, Said.frame]
          · simp [addressed, hsame]
        · cases haction
      · cases haction
        rfl
      · cases haction
        rfl
      · cases haction
  | record j =>
    obtain ⟨session, envelope, sent, -, -, -, -, rfl⟩ := step_record_cases hstep
    exact .inl ⟨rfl, fun i => rfl⟩
  | announce j =>
    obtain ⟨session, stored, hj, hprogress, rfl⟩ := step_announce_cases hstep
    refine .inr ⟨.broadcast .global _, trivial, rfl, fun i conn => ?_⟩
    simp [App.tells, hj, Session.stored, hprogress, addressed, Said.frame]
  | typing j =>
    obtain ⟨session, envelope, sent, hj, hpc, -, hdispatch, rfl⟩ := step_typing_cases hstep
    refine .inr ⟨.broadcast .global _, trivial, rfl, fun i conn => ?_⟩
    simp [App.tells, hj, hpc, hdispatch, addressed, Said.frame]
  | elsewhere a =>
    obtain ⟨henabled, hne, rfl⟩ := step_elsewhere_cases hstep
    exact .inr ⟨a, henabled, rfl, fun i conn => addressed_of_ne hne⟩

/-- An outbox that is open was open before. -/
theorem isOpen_of_step {w : World Namespace} (hinv : Inv w) {a : Action Namespace} {o : Nat}
    (ho : o < w.created) (h : ((w.step a).2.outboxes o).isOpen = true) :
    (w.outboxes o).isOpen = true := by
  have hall : ∀ ns p frame,
      ((sendAll frame ((w.servers ns).values.filter p) w.outboxes).2 o).isOpen =
        (w.outboxes o).isOpen := fun ns p frame =>
    ((sendAll_spec frame ((nodup_outboxes hinv ns).sublist (List.filter_sublist.map _))
      w.outboxes).2 o).1
  have hsend : ∀ o' frame, ((send w.outboxes o' frame).2 o).isOpen = (w.outboxes o).isOpen :=
    fun o' frame => ((send_spec w.outboxes o' frame).2 o).1
  cases a with
  | allocate ns =>
    have hne : o ≠ w.created := Nat.ne_of_lt ho
    simpa [World.step, hne] using h
  | broadcast ns encoded =>
    cases encoded with
    | none => exact h
    | some frame =>
      simp only [World.step, WsServer.broadcastValue] at h
      rw [← filter_true (w.servers ns).values, hall ns (fun _ => true) frame] at h
      exact h
  | emitTo ns room encoded =>
    cases encoded with
    | none => exact h
    | some frame => exact (hall ns (fun conn => room ∈ conn.rooms) frame).symm.trans h
  | emit ns id encoded =>
    cases encoded with
    | none => exact h
    | some frame =>
      simp only [World.step, WsServer.emitValue] at h
      split at h
      · rw [hsend] at h
        exact h
      · exact h
  | reply ns id frame =>
    unfold World.step at h
    simp only at h
    split at h
    · exact (hsend _ _).symm.trans h
    · exact h
  | close outbox =>
    by_cases hsame : o = outbox
    · subst hsame
      simp [World.step] at h
    · simpa [World.step, hsame] using h
  | _ => exact h

/-- A socket stays at its place, with its outbox, and goes one stage at most. -/
theorem session_step {e : Event} (hstep : s.step serde e = some s')
    (hsession : s.sessions[i]? = some session) :
    ∃ session', s'.sessions[i]? = some session' ∧ session'.outbox = session.outbox ∧
      (Stage.of session'.pc = Stage.of session.pc ∨
        ∃ label : Label Namespace Value,
          Stage.Step (Stage.of session.pc) label (Stage.of session'.pc)) := by
  have hput : ∀ {j : Nat} {session₁ session₂ : Session}, s.sessions[j]? = some session₁ →
      session₂.outbox = session₁.outbox →
      (Stage.of session₂.pc = Stage.of session₁.pc ∨
        ∃ label : Label Namespace Value,
          Stage.Step (Stage.of session₁.pc) label (Stage.of session₂.pc)) →
      ∃ session', (s.sessions.set j session₂)[i]? = some session' ∧
        session'.outbox = session.outbox ∧
        (Stage.of session'.pc = Stage.of session.pc ∨
          ∃ label : Label Namespace Value,
            Stage.Step (Stage.of session.pc) label (Stage.of session'.pc)) := by
    intro j session₁ session₂ hj houtbox hstage
    by_cases hij : j = i
    · subst hij
      rw [hj] at hsession
      cases hsession
      exact ⟨session₂, List.getElem?_set_self (List.getElem?_eq_some_iff.mp hj).1, houtbox, hstage⟩
    · exact ⟨session, (List.getElem?_set_ne hij).trans hsession, rfl, .inl rfl⟩
  cases e with
  | upgrade =>
    cases hstep
    refine ⟨session, ?_, rfl, .inl rfl⟩
    rw [List.getElem?_append_left (List.getElem?_eq_some_iff.mp hsession).1]
    exact hsession
  | task j move =>
    obtain ⟨session₁, label, pc, hj, -, -, hstage, -, -, rfl⟩ := step_task_cases hstep
    exact hput hj rfl (.inr ⟨label, hstage⟩)
  | record j =>
    obtain ⟨session₁, envelope, sent, hj, -, -, -, rfl⟩ := step_record_cases hstep
    exact hput hj rfl (.inl rfl)
  | announce j =>
    obtain ⟨session₁, stored, hj, -, rfl⟩ := step_announce_cases hstep
    exact hput hj rfl (.inl rfl)
  | typing j =>
    obtain ⟨session₁, envelope, sent, hj, -, -, -, rfl⟩ := step_typing_cases hstep
    exact hput hj rfl (.inl rfl)
  | elsewhere a =>
    obtain ⟨-, -, rfl⟩ := step_elsewhere_cases hstep
    exact ⟨session, hsession, rfl, .inl rfl⟩

/-- Along a run a socket that was registered, and still is, was so all the time. -/
theorem live_of_step {stage stage' : Stage}
    (h : stage' = stage ∨ ∃ label : Label Namespace Value, Stage.Step stage label stage')
    (hconnecting : stage ≠ .connecting) :
    stage' ≠ .connecting ∧ (stage'.live = true → stage.live = true) := by
  rcases h with rfl | ⟨label, h⟩
  · exact ⟨hconnecting, id⟩
  · refine ⟨h.ne_connecting, fun hlive => ?_⟩
    rcases h.live_of hlive with rfl | ⟨hold, -, -⟩
    · cases h with
      | insert => exact absurd rfl hconnecting
      | serve _ hl => cases hl
      | stop _ hl => cases hl
    · exact hold

/-- What one event adds to the outbox of a socket that is registered. -/
theorem queued_event (h : Served serde events s) (hroom : ∀ ns, opened ns events < 2 ^ 64)
    {e : Event} (hstep : s.step serde e = some s') (hsession : s.sessions[i]? = some session)
    (hlive : (Stage.of session.pc).live = true)
    (hopen : (s'.world.outboxes session.outbox).isOpen = true) :
    (s.world.outboxes session.outbox).isOpen = true ∧
      (s'.world.outboxes session.outbox).queued =
        (s.world.outboxes session.outbox).queued ++
          (s.tells serde i e).toList.filterMap (Said.frame serde) := by
  obtain ⟨actions, hvalid, hafter, hallocations⟩ := h.world
  have hinv : Inv s.world := hafter ▸ inv_after hvalid fun ns => by
    rw [hallocations]
    exact hroom ns
  obtain ⟨w, labels, hrun, -⟩ := h.tasks i session hsession
  obtain ⟨conn, hconn, houtbox⟩ := (traced_run hrun).live hlive
  have hconn : Registered s.world .global session.id conn := hconn
  have houtbox : conn.outbox = session.outbox := houtbox
  rw [h.ids i session hsession] at hconn
  have hbelow : session.outbox < s.world.created :=
    houtbox ▸ (hinv.below .global i _ (.inr ⟨conn, hconn, rfl⟩)).2
  rcases tells_cases h hstep with ⟨hsame, hnone⟩ | ⟨a, henabled, hsame, htells⟩
  · rw [hsame] at hopen ⊢
    rw [hnone i]
    exact ⟨hopen, (List.append_nil _).symm⟩
  · rw [hsame] at hopen ⊢
    have hbefore := isOpen_of_step hinv hbelow hopen
    refine ⟨hbefore, ?_⟩
    rw [← houtbox] at hbefore ⊢
    rw [queued_step hinv hconn a, if_pos hbefore, htells i conn]
    cases s.tells serde i e with
    | none => rfl
    | some said =>
      cases hframe : said.frame serde with
      | none => simp [hframe]
      | some frame => simp [hframe]

theorem run_append_of {more : List Event} (hrun : App.init.run serde events = some s)
    (hmore : s.run serde more = some s') : App.init.run serde (events ++ more) = some s' := by
  unfold App.run at hrun hmore ⊢
  rw [List.foldlM_append, hrun]
  exact hmore

/-- What a run adds to the outbox of a socket that stays registered. -/
theorem heard_run {more : List Event} (hroom : ∀ ns, opened ns (events ++ more) < 2 ^ 64)
    (hrun : App.init.run serde events = some s) (hmore : s.run serde more = some s')
    (hsession : s.sessions[i]? = some session) (hlive : (Stage.of session.pc).live = true) :
    ∃ session', s'.sessions[i]? = some session' ∧ session'.outbox = session.outbox ∧
      Stage.of session'.pc ≠ .connecting ∧
      ((Stage.of session'.pc).live = true →
        (s'.world.outboxes session.outbox).isOpen = true →
        (s'.world.outboxes session.outbox).queued =
          (s.world.outboxes session.outbox).queued ++
            (s.heard serde i more).filterMap (Said.frame serde)) := by
  induction more using List.reverseRecOn generalizing s' with
  | nil =>
    cases hmore
    refine ⟨session, hsession, rfl, fun h => ?_, fun _ _ => (List.append_nil _).symm⟩
    rw [h] at hlive
    cases hlive
  | append_singleton more e ih =>
    obtain ⟨s₁, hs₁, hstep⟩ := (app_run_snoc more e).mp hmore
    rw [← List.append_assoc] at hroom
    obtain ⟨session₁, hsession₁, houtbox, hconnecting, hqueued⟩ := ih (opened_lt hroom) hs₁
    obtain ⟨session', hsession', houtbox', hstage⟩ := session_step hstep hsession₁
    obtain ⟨hconnecting', hback⟩ := live_of_step hstage hconnecting
    refine ⟨session', hsession', houtbox'.trans houtbox, hconnecting', fun hlive' hopen => ?_⟩
    have hserved : Served serde (events ++ more) s₁ :=
      served_run (opened_lt hroom) (run_append_of hrun hs₁)
    rw [← houtbox] at hopen
    obtain ⟨hbefore, hadded⟩ :=
      queued_event hserved (opened_lt hroom) hstep hsession₁ (hback hlive') hopen
    rw [houtbox] at hbefore hadded
    rw [hadded, hqueued (hback hlive') hbefore, heard_snoc hs₁, List.filterMap_append,
      List.append_assoc]

theorem grows_run {more : List Event} (hmore : s.run serde more = some s') (i : Nat) :
    s.history <+: s'.history ∧
      s'.announced = s.announced ++ (s.heard serde i more).filterMap Said.message? := by
  induction more using List.reverseRecOn generalizing s' with
  | nil =>
    cases hmore
    exact ⟨List.prefix_refl _, (List.append_nil _).symm⟩
  | append_singleton more e ih =>
    obtain ⟨s₁, hs₁, hstep⟩ := (app_run_snoc more e).mp hmore
    obtain ⟨hgrown, hannounced⟩ := ih hs₁
    obtain ⟨hgrows, hsaid⟩ := grows_step hstep i
    refine ⟨hgrown.trans hgrows, ?_⟩
    rw [hsaid, hannounced, heard_snoc hs₁, List.filterMap_append, List.append_assoc]

/-- **No message is missed.** Between two states of a run in which a socket is registered, and its
writer lives, its outbox gets exactly what the run tells it, in order: the broadcasts and its own
replies. The messages among these are those that were broadcast, the same in the same order for
every such socket; and they are, in some order, those that have been recorded in the meantime, with
those that were recorded and not broadcast at the start, without those at the end. So who asks for
the history and listens on misses nothing; only what was about to be broadcast is heard twice. -/
theorem no_message_missed {more : List Event} (hroom : ∀ ns, opened ns (events ++ more) < 2 ^ 64)
    (hrun : App.init.run serde events = some s) (hmore : s.run serde more = some s')
    {session' : Session} (hsession : s.sessions[i]? = some session)
    (hsession' : s'.sessions[i]? = some session')
    (hlive : (Stage.of session.pc).live = true) (hlive' : (Stage.of session'.pc).live = true)
    (hopen : (s'.world.outboxes session.outbox).isOpen = true) :
    (s'.world.outboxes session.outbox).queued =
        (s.world.outboxes session.outbox).queued ++
          (s.heard serde i more).filterMap (Said.frame serde) ∧
      s'.announced = s.announced ++ (s.heard serde i more).filterMap Said.message? ∧
      ∃ recorded, s'.history = s.history ++ recorded ∧
        (recorded ++ s.pending).Perm
          ((s.heard serde i more).filterMap Said.message? ++ s'.pending) := by
  obtain ⟨session₁, hsession₁, -, -, hqueued⟩ := heard_run hroom hrun hmore hsession hlive
  rw [hsession'] at hsession₁
  cases hsession₁
  obtain ⟨⟨recorded, hrecorded⟩, hannounced⟩ := grows_run hmore i
  refine ⟨hqueued hlive' hopen, hannounced, recorded, hrecorded.symm, ?_⟩
  refine List.perm_iff_count.mpr fun message => ?_
  have hstart := (perm_run hrun).count_eq message
  have hend := (perm_run (run_append_of hrun hmore)).count_eq message
  rw [hannounced, ← hrecorded] at hend
  simp only [List.count_append] at hstart hend ⊢
  omega

/-- The first socket hears what the second has said. -/
theorem greeting_heard : ∃ s s' session, App.init.run roomSerde greeting = some s ∧
    s.run roomSerde [.announce 1, .task 1 .reply] = some s' ∧ s.sessions[0]? = some session ∧
    s.pending = [⟨"ada", "hi"⟩] ∧ (s'.world.outboxes session.outbox).queued = [adaText] ∧
    s'.announced = s.announced ++
      (s.heard roomSerde 0 [.announce 1, .task 1 .reply]).filterMap Said.message? :=
  ⟨_, _, _, rfl, rfl, rfl, rfl, rfl,
    (no_message_missed (i := 0) (fun ns => by cases ns <;> decide)
      (show App.init.run roomSerde greeting = some _ from rfl)
      (show App.run roomSerde _ [.announce 1, .task 1 .reply] = some _ from rfl) rfl rfl rfl rfl
      rfl).2.1⟩

-- two methods at once: the broadcasts in another order than the history
example : (App.init.run roomSerde (enters 0 ++ enters 1 ++ posts 0 adaText ++ posts 1 bannedText ++
    [.announce 1, .announce 0])).map (fun s => (s.history, s.announced)) =
      some ([⟨"ada", "hi"⟩, ⟨"banned", "hi"⟩], [⟨"banned", "hi"⟩, ⟨"ada", "hi"⟩]) := rfl

end Nestrs.Chat
