import OjsNats.Lifecycle.Naming
import OjsNats.Subject.Matching

/-!
# Events

`pubsub.go`: an event is published on the subjects of its job, of its queue and
of all events.  A subscription splices the caller's text into its subject, where
it may be a wildcard.
-/

namespace OjsNats.Nats

open Subject

structure JobEvent where
  jobID : String := ""
  queue : String := ""
  deriving DecidableEq

def eventJobSubject (jobID : String) : String := "ojs.events.job." ++ jobID

def eventQueueSubject (queue : String) : String := "ojs.events.queue." ++ queue

def eventAllSubject : String := "ojs.events.all"

/-- The messages of `PublishJobEvent`. -/
def publishJobEvent (event : JobEvent) : List (String × JobEvent) :=
  (eventJobSubject event.jobID, event) ::
    (if event.queue ≠ "" then [(eventQueueSubject event.queue, event)] else []) ++
    [(eventAllSubject, event)]

/-! ## Subscriptions -/

def wildcards : Wildcards (List Char) where
  one := ['*']
  tail := ['>']

def tokens (subject : String) : List (List Char) := subject.toList.splitOn '.'

/-- Whether NATS delivers what is published on a subject to a subscription. -/
def delivers (subscribed subject : String) : Bool :=
  wildcards.matches? (tokens subscribed) (tokens subject)

/-- A subscription: what is in the channel, and what was taken from it. -/
structure Subscription where
  channel : List JobEvent := []
  received : List JobEvent := []

/-- The callback drops an event for which there is no room in the channel. -/
def Subscription.callback (s : Subscription) (event : JobEvent) : Subscription :=
  if s.channel.length < 64 then { s with channel := s.channel ++ [event] } else s

def Subscription.receive (s : Subscription) : Subscription :=
  match s.channel with
  | [] => s
  | event :: rest => { channel := rest, received := s.received ++ [event] }

inductive Occurrence where
  | publish (event : JobEvent)
  | receive

def Subscription.step (subject : String) (s : Subscription) : Occurrence → Subscription
  | .publish event =>
      ((publishJobEvent event).filter fun msg => delivers subject msg.1).foldl
        (fun s msg => s.callback msg.2) s
  | .receive => s.receive

/-- The subscription to a subject after the given occurrences. -/
def subscribe (subject : String) (occurrences : List Occurrence) : Subscription :=
  occurrences.foldl (Subscription.step subject) {}

def subscribeJob (jobID : String) : List Occurrence → Subscription :=
  subscribe (eventJobSubject jobID)

def subscribeQueue (queue : String) : List Occurrence → Subscription :=
  subscribe (eventQueueSubject queue)

/-! ## Valid events -/

def hexDigit (c : Char) : Bool := ('0' ≤ c && c ≤ '9') || ('a' ≤ c && c ≤ 'f')

/-- The format of the ids of jobs. -/
def IsUUID (id : String) : Prop :=
  (id.toList.splitOn '-').map List.length = [8, 4, 4, 4, 12] ∧
    id.toList.all fun c => c == '-' || hexDigit c

structure JobEvent.Valid (event : JobEvent) : Prop where
  queue : IsQueueName event.queue
  jobID : IsUUID event.jobID

/-- Whatever valid events occur, only those come out that belong here. -/
def Isolated (subscription : List Occurrence → Subscription) (belongs : JobEvent → Prop) : Prop :=
  ∀ occurrences, (∀ event, .publish event ∈ occurrences → event.Valid) →
    ∀ event ∈ (subscription occurrences).received, belongs event

/-- The text with an `a` for each wildcard in it. -/
def filled (text : String) : String :=
  String.ofList (['.'].intercalate (wildcards.fill ['a'] (tokens text)))

/-- The event has a message on a subject that fits. -/
def Fits (subject : String) (event : JobEvent) : Prop :=
  ∃ msg ∈ publishJobEvent event, delivers subject msg.1

section Deliveries

variable {subject queue jobID text : String} {s : Subscription} {event : JobEvent}
  {occurrence : Occurrence} {occurrences : List Occurrence}

/-- The events that a subscription holds. -/
def Subscription.events (s : Subscription) : List JobEvent := s.received ++ s.channel

theorem mem_callback {other : JobEvent} (mem : event ∈ (s.callback other).events) :
    event ∈ s.events ∨ event = other := by
  unfold Subscription.callback at mem
  split at mem
  · simp only [Subscription.events, List.mem_append, List.mem_singleton] at mem ⊢
    tauto
  · exact .inl mem

theorem mem_foldl_callback {msgs : List (String × JobEvent)}
    (mem : event ∈ (msgs.foldl (fun s msg => s.callback msg.2) s).events) :
    event ∈ s.events ∨ ∃ msg ∈ msgs, event = msg.2 := by
  induction msgs generalizing s with
  | nil => exact .inl mem
  | cons first msgs ih =>
    rcases ih mem with old | ⟨msg, later, same⟩
    · rcases mem_callback old with old | same
      · exact .inl old
      · exact .inr ⟨first, by simp, same⟩
    · exact .inr ⟨msg, List.mem_cons_of_mem _ later, same⟩

theorem head?_foldl_callback {msgs : List (String × JobEvent)}
    (first : s.channel.head? = some event) :
    (msgs.foldl (fun s msg => s.callback msg.2) s).channel.head? = some event := by
  induction msgs generalizing s with
  | nil => exact first
  | cons msg msgs ih =>
    have kept : (s.callback msg.2).channel.head? = some event := by
      unfold Subscription.callback
      split
      · simp [first]
      · exact first
    exact ih kept

theorem publishJobEvent_snd {msg : String × JobEvent} (mem : msg ∈ publishJobEvent event) :
    msg.2 = event := by
  unfold publishJobEvent at mem
  grind

/-- An occurrence brings no event but one that is published on a subject that fits. -/
theorem mem_step (mem : event ∈ (s.step subject occurrence).events) :
    event ∈ s.events ∨ occurrence = .publish event ∧ Fits subject event := by
  cases occurrence with
  | publish other =>
    rcases mem_foldl_callback mem with old | ⟨msg, published, same⟩
    · exact .inl old
    · obtain ⟨published, fits⟩ := List.mem_filter.mp published
      obtain rfl : event = other := same.trans (publishJobEvent_snd published)
      exact .inr ⟨rfl, msg, published, fits⟩
  | receive =>
    left
    simp only [Subscription.step, Subscription.receive] at mem
    split at mem
    · exact mem
    next first rest channel =>
      simpa [Subscription.events, channel] using mem

theorem mem_foldl_step (mem : event ∈ (occurrences.foldl (Subscription.step subject) s).events) :
    event ∈ s.events ∨ .publish event ∈ occurrences ∧ Fits subject event := by
  induction occurrences generalizing s with
  | nil => exact .inl mem
  | cons first occurrences ih =>
    rcases ih mem with old | ⟨later, fits⟩
    · rcases mem_step old with old | ⟨rfl, fits⟩
      · exact .inl old
      · exact .inr ⟨List.mem_cons_self, fits⟩
    · exact .inr ⟨List.mem_cons_of_mem _ later, fits⟩

/-- What a subscriber receives was published on a subject that fits. -/
theorem mem_received (mem : event ∈ (subscribe subject occurrences).received) :
    .publish event ∈ occurrences ∧ Fits subject event := by
  have held : event ∈ (subscribe subject occurrences).events :=
    List.mem_append_left _ mem
  rcases mem_foldl_step held with old | published
  · simp [Subscription.events] at old
  · exact published

/-- An event that fits is received, if nothing else happens. -/
theorem received_of_fits (fits : Fits subject event) :
    event ∈ (subscribe subject [.publish event, .receive]).received := by
  obtain ⟨msg, published, fits⟩ := fits
  let msgs := (publishJobEvent event).filter fun msg => delivers subject msg.1
  have own (msg) (mem : msg ∈ msgs) : msg.2 = event :=
    publishJobEvent_snd (List.mem_of_mem_filter mem)
  have among : msg ∈ msgs := List.mem_filter.mpr ⟨published, fits⟩
  let after := Subscription.step subject {} (.publish event)
  have first : after.channel.head? = some event := by
    have whole : after = msgs.foldl (fun s msg => s.callback msg.2) {} := rfl
    rw [whole]
    cases here : msgs with
    | nil => simp [here] at among
    | cons first rest =>
      have kept : (Subscription.callback {} first.2).channel.head? = some event := by
        rw [own first (by simp [here])]
        rfl
      rw [List.foldl_cons]
      exact head?_foldl_callback kept
  obtain ⟨rest, channel⟩ := List.head?_eq_some_iff.mp first
  have last : subscribe subject [.publish event, .receive] = after.receive := rfl
  rw [last, Subscription.receive, channel]
  simp

/-! ## Subjects -/

/-- A text without dots and a dot are the first token. -/
theorem splitOn_append_dot {token rest : List Char} (dotless : '.' ∉ token) :
    (token ++ '.' :: rest).splitOn '.' = token :: rest.splitOn '.' := by
  rw [List.splitOn_append_cons_self, List.splitOn_eq_singleton dotless]
  rfl

theorem tokens_event {kind : String} (dotless : '.' ∉ kind.toList) (text : String) :
    tokens ("ojs.events." ++ kind ++ "." ++ text) =
      "ojs".toList :: "events".toList :: kind.toList :: tokens text := by
  have whole : ("ojs.events." ++ kind ++ "." ++ text).toList =
      "ojs".toList ++ '.' :: ("events".toList ++ '.' :: (kind.toList ++ '.' :: text.toList)) := by
    simp
  rw [tokens, whole, splitOn_append_dot (by decide), splitOn_append_dot (by decide),
    splitOn_append_dot dotless, tokens]

theorem tokens_eventJobSubject (jobID : String) : tokens (eventJobSubject jobID) =
    "ojs".toList :: "events".toList :: "job".toList :: tokens jobID := by
  have split : "ojs.events.job." = "ojs.events." ++ "job" ++ "." := by decide
  have subject : eventJobSubject jobID = "ojs.events." ++ "job" ++ "." ++ jobID :=
    congrArg (· ++ jobID) split
  rw [subject]
  exact tokens_event (by decide) jobID

theorem tokens_eventQueueSubject (queue : String) : tokens (eventQueueSubject queue) =
    "ojs".toList :: "events".toList :: "queue".toList :: tokens queue := by
  have split : "ojs.events.queue." = "ojs.events." ++ "queue" ++ "." := by decide
  have subject : eventQueueSubject queue = "ojs.events." ++ "queue" ++ "." ++ queue :=
    congrArg (· ++ queue) split
  rw [subject]
  exact tokens_event (by decide) queue

theorem tokens_eventAllSubject :
    tokens eventAllSubject = "ojs".toList :: "events".toList :: "all".toList :: [] := by
  decide

/-- Two kinds of events have nothing in common. -/
theorem matches?_event (kind : String) (kinds : kind ∈ ["job", "queue"]) {kind' : String}
    {pattern subject : List (List Char)} (nonempty : pattern ≠ []) :
    wildcards.matches? ("ojs".toList :: "events".toList :: kind.toList :: pattern)
        ("ojs".toList :: "events".toList :: kind'.toList :: subject) = true ↔
      kind = kind' ∧ wildcards.matches? pattern subject = true := by
  have literal : ∀ token ∈ ["ojs".toList, "events".toList, "job".toList, "queue".toList],
      token ≠ wildcards.one := by decide
  have here : kind.toList ≠ wildcards.one := by
    refine literal _ ?_
    simp only [List.mem_cons, List.not_mem_nil, or_false] at kinds ⊢
    rcases kinds with rfl | rfl
    · exact .inr (.inr (.inl rfl))
    · exact .inr (.inr (.inr rfl))
  rw [Wildcards.matches?_literal (literal _ (by simp)) (by simp),
    Wildcards.matches?_literal (literal _ (by simp)) (by simp),
    Wildcards.matches?_literal here nonempty]
  simp [String.toList_inj]

/-- A subscription to one kind of subjects gets the events with a subject of that kind. -/
theorem fits_kind {subject kind : String} {pattern : List (List Char)} (named : event.queue ≠ "")
    (kinds : kind ∈ ["job", "queue"]) (nonempty : pattern ≠ [])
    (split : tokens subject = "ojs".toList :: "events".toList :: kind.toList :: pattern) :
    Fits subject event ↔
      kind = "job" ∧ wildcards.matches? pattern (tokens event.jobID) = true ∨
        kind = "queue" ∧ wildcards.matches? pattern (tokens event.queue) = true ∨
          kind = "all" ∧ wildcards.matches? pattern [] = true := by
  simp only [Fits, publishJobEvent, delivers, split, named, ne_eq, not_false_eq_true, if_true,
    List.cons_append, List.nil_append, List.mem_cons, List.not_mem_nil, or_false,
    exists_eq_or_imp, exists_eq_left, tokens_eventJobSubject, tokens_eventAllSubject,
    tokens_eventQueueSubject, matches?_event kind kinds nonempty]

/-- A subscription to a queue is to the subjects of queues. -/
theorem fits_eventQueueSubject (named : event.queue ≠ "") :
    Fits (eventQueueSubject queue) event ↔
      wildcards.matches? (tokens queue) (tokens event.queue) = true := by
  have nonempty : tokens queue ≠ [] := List.splitOn_ne_nil '.' queue.toList
  rw [fits_kind named (by simp) nonempty (tokens_eventQueueSubject queue)]
  simp

theorem fits_eventJobSubject (named : event.queue ≠ "") :
    Fits (eventJobSubject jobID) event ↔
      wildcards.matches? (tokens jobID) (tokens event.jobID) = true := by
  have nonempty : tokens jobID ≠ [] := List.splitOn_ne_nil '.' jobID.toList
  rw [fits_kind named (by simp) nonempty (tokens_eventJobSubject jobID)]
  simp

/-! ## Names -/

theorem tokens_injective : Function.Injective tokens := by
  intro a b same
  have whole := congrArg (List.intercalate ['.']) same
  rw [tokens, tokens, List.intercalate_splitOn, List.intercalate_splitOn] at whole
  exact String.toList_inj.mp whole

theorem isQueueName_of_chars {name : String} (chars : ∀ c ∈ name.toList, nameChar c)
    (start : ∃ c ∈ name.toList.head?, nameStart c) : IsQueueName name := by
  obtain ⟨first, head, start⟩ := start
  obtain ⟨rest, whole⟩ := List.head?_eq_some_iff.mp head
  refine ⟨first, rest, whole, start, List.all_eq_true.mpr fun c mem => chars c ?_⟩
  rw [whole]
  exact List.mem_cons_of_mem _ mem

/-- The first token of a name begins as the name does. -/
theorem head?_tokens {name : String} (valid : IsQueueName name) :
    ∃ c rest, (tokens name).head? = some (c :: rest) ∧ nameStart c := by
  obtain ⟨first, rest, whole, start, -⟩ := valid
  have dotless : first ≠ '.' := by
    rintro rfl
    revert start
    decide
  obtain ⟨token, later, split⟩ := List.exists_cons_of_ne_nil (List.splitOn_ne_nil '.' rest)
  refine ⟨first, token, ?_, start⟩
  rw [tokens, whole, List.splitOn_cons_eq_if_modifyHead, if_neg (by simpa using dotless), split]
  rfl

theorem tokens_filled (text : String) :
    tokens (filled text) = wildcards.fill ['a'] (tokens text) := by
  have dotless : ∀ token ∈ tokens text, ∀ c ∈ token, c ≠ '.' :=
    forall_mem_splitOn fun _ _ other => other
  have filling : ∀ token ∈ wildcards.fill ['a'] (tokens text), ∀ c ∈ token, c ≠ '.' :=
    Wildcards.forall_mem_fill (Wildcards.matches?_self _ _) dotless (by simp)
  rw [tokens, filled, String.toList_ofList, List.splitOn_intercalate]
  · exact fun token mem dot => filling token mem '.' dot rfl
  · exact Wildcards.fill_ne_nil _ _ (List.splitOn_ne_nil '.' text.toList)

/-- A text that a valid name fits is a valid name when it is filled. -/
theorem isQueueName_filled {name : String} (valid : IsQueueName name)
    (matched : wildcards.matches? (tokens text) (tokens name) = true) :
    IsQueueName (filled text) := by
  have chars : ∀ token ∈ tokens name, ∀ c ∈ token, nameChar c :=
    forall_mem_splitOn fun c mem _ => valid.chars mem
  have filler : ∀ c ∈ ['a'], nameChar c := List.forall_mem_singleton.mpr rfl
  have filling := Wildcards.forall_mem_fill matched chars filler
  apply isQueueName_of_chars
  · rw [filled, String.toList_ofList]
    exact forall_mem_intercalate (by decide) filling
  · obtain ⟨c, rest, first, start⟩ := head?_tokens valid
    rw [filled, String.toList_ofList]
    rcases Wildcards.head?_fill (x := ['a']) matched with same | same
    · exact ⟨c, head?_intercalate (same.trans first), start⟩
    · exact ⟨'a', head?_intercalate same, by decide⟩

/-! ## Isolation -/

/-- A job's id and a queue's name, which are valid. -/
def sampleEvent (queue : String) : JobEvent where
  jobID := "00000000-0000-7000-8000-000000000000"
  queue := queue

theorem isUUID_sampleEvent (queue : String) : IsUUID (sampleEvent queue).jobID := by
  have format : IsUUID "00000000-0000-7000-8000-000000000000" := by
    constructor <;> decide
  exact format

theorem isolated_iff {subject : String} {belongs : JobEvent → Prop} :
    Isolated (subscribe subject) belongs ↔
      ∀ event : JobEvent, event.Valid → Fits subject event → belongs event := by
  constructor
  · intro isolated event valid fits
    refine isolated [.publish event, .receive] ?_ event (received_of_fits fits)
    intro other mem
    obtain rfl : other = event := by simpa using mem
    exact valid
  · intro belongs occurrences valid event mem
    obtain ⟨published, fits⟩ := mem_received mem
    exact belongs event (valid event published) fits

theorem JobEvent.Valid.named (valid : event.Valid) : event.queue ≠ "" := by
  obtain ⟨first, rest, whole, -⟩ := valid.queue
  intro empty
  simp [empty] at whole

/-- A subscription to a queue is isolated exactly if there is no wildcard in its name, or it is
no pattern of valid names. -/
theorem isolated_subscribeQueue_iff (queue : String) :
    Isolated (subscribeQueue queue) (fun event => event.queue = queue) ↔
      ¬ (wildcards.HasWildcard (tokens queue) ∧ IsQueueName (filled queue)) := by
  refine isolated_iff.trans ?_
  constructor
  · rintro isolated ⟨wild, valid⟩
    have matched : wildcards.matches? (tokens queue) (tokens (filled queue)) = true := by
      rw [tokens_filled]
      exact Wildcards.matches?_fill _ _ _
    have sample : (sampleEvent (filled queue)).Valid := ⟨valid, isUUID_sampleEvent _⟩
    have same := isolated _ sample ((fits_eventQueueSubject sample.named).mpr matched)
    refine Wildcards.fill_ne (x := ['a']) (by decide) (by decide) wild ?_
    rw [← tokens_filled]
    exact congrArg tokens same
  · intro literal event valid fits
    have matched := (fits_eventQueueSubject valid.named).mp fits
    by_cases wild : wildcards.HasWildcard (tokens queue)
    · exact absurd ⟨wild, isQueueName_filled valid.queue matched⟩ literal
    · exact tokens_injective (Wildcards.eq_of_matches? wild matched)

theorem IsUUID.tokens (uuid : IsUUID jobID) : tokens jobID = [jobID.toList] := by
  refine List.splitOn_eq_singleton fun dot => ?_
  have char := List.all_eq_true.mp uuid.2 '.' dot
  revert char
  decide

/-- One to a job is isolated exactly if its id is no wildcard. -/
theorem isolated_subscribeJob_iff (jobID : String) :
    Isolated (subscribeJob jobID) (fun event => event.jobID = jobID) ↔
      jobID ≠ "*" ∧ jobID ≠ ">" := by
  have single (event : JobEvent) (valid : event.Valid) :
      Fits (eventJobSubject jobID) event ↔
        jobID = "*" ∨ jobID = ">" ∨ jobID = event.jobID := by
    rw [fits_eventJobSubject valid.named, valid.jobID.tokens, Wildcards.matches?_singleton,
      ← valid.jobID.tokens]
    have one : tokens "*" = [wildcards.one] := by decide
    have tail : tokens ">" = [wildcards.tail] := by decide
    rw [← one, ← tail]
    have same {a b : String} : tokens a = tokens b ↔ a = b := tokens_injective.eq_iff
    exact or_congr same (or_congr same same)
  refine isolated_iff.trans ?_
  constructor
  · intro isolated
    have valid : (sampleEvent "mails").Valid :=
      ⟨⟨'m', "ails".toList, by decide, by decide, by decide⟩, isUUID_sampleEvent _⟩
    have own := fun fits => isolated _ valid ((single _ valid).mpr fits)
    constructor
    · rintro rfl
      exact absurd (own (.inl rfl)) (by decide)
    · rintro rfl
      exact absurd (own (.inr (.inl rfl))) (by decide)
  · rintro ⟨one, tail⟩ event valid fits
    rcases (single event valid).mp fits with wild | wild | same
    · exact absurd wild one
    · exact absurd wild tail
    · exact same.symm

end Deliveries

/-- Subscriptions to queues are isolated exactly for names that are no patterns of valid names,
and those to jobs exactly for ids that are no wildcards. -/
theorem subscriptions_isolated_iff (queue jobID : String) :
    (Isolated (subscribeQueue queue) (fun event => event.queue = queue) ↔
      ¬ (wildcards.HasWildcard (tokens queue) ∧ IsQueueName (filled queue))) ∧
    (Isolated (subscribeJob jobID) (fun event => event.jobID = jobID) ↔
      jobID ≠ "*" ∧ jobID ≠ ">") :=
  ⟨isolated_subscribeQueue_iff queue, isolated_subscribeJob_iff jobID⟩

/-- A subscription to the queue `*` is to the events of all queues with one token. -/
theorem not_subscriptions_isolated :
    ¬ ∀ queue, Isolated (subscribeQueue queue) (fun event => event.queue = queue) := by
  intro isolated
  have valid : (sampleEvent "mails").Valid :=
    ⟨⟨'m', "ails".toList, by decide, by decide, by decide⟩, isUUID_sampleEvent _⟩
  have own := isolated "*" [.publish (sampleEvent "mails"), .receive]
    (fun event mem => by
      obtain rfl : event = sampleEvent "mails" := by simpa using mem
      exact valid)
    (sampleEvent "mails") (by decide)
  revert own
  decide

end OjsNats.Nats
