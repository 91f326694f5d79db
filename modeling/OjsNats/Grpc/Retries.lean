import OjsNats.Grpc.Convert
import OjsNats.Lifecycle.Failures

/-!
# The retry limit of a request

The limit of a gRPC retry policy reaches the stored record inside the job's
policy, while `Nack` compares the attempts with the job's own limit, which the
conversion leaves unset.
-/

namespace OjsNats.Grpc

open Core Nats Effect Semantics Program Relation Lifecycle

variable {lib : Externals} {clockwork : Clockwork} {w u t : World} {req : EnqueueRequest}
  {j : String} {reply : Reply} {trace : List Passage}

/-- The attempts that the request allows. -/
def EnqueueRequest.maxAttempts (req : EnqueueRequest) : Option Int :=
  req.options.bind fun opts => opts.retry.map RetryPolicy.maxAttempts

theorem enqueueRequestToJob_maxAttempts (clockwork : Clockwork) (req : EnqueueRequest) :
    (enqueueRequestToJob clockwork req).maxAttempts = none := by
  unfold enqueueRequestToJob
  cases req.options <;> rfl

theorem enqueueRequestToJob_expiresAt (clockwork : Clockwork) (req : EnqueueRequest) :
    (enqueueRequestToJob clockwork req).expiresAt = "" := by
  unfold enqueueRequestToJob
  cases req.options <;> rfl

/-- The limit does reach the job's policy. -/
theorem enqueueRequestToJob_retry (clockwork : Clockwork) (req : EnqueueRequest) :
    (enqueueRequestToJob clockwork req).retry =
      req.options.bind fun opts => opts.retry.map (protoRetryToCore clockwork) := by
  unfold enqueueRequestToJob
  cases req.options <;> rfl

theorem patternless_enqueueRequestToJob (clockwork : Clockwork) (req : EnqueueRequest) :
    Patternless (enqueueRequestToJob clockwork req) := by
  intro policy here
  rw [enqueueRequestToJob_retry] at here
  obtain ⟨opts, -, here⟩ := Option.bind_eq_some_iff.mp here
  obtain ⟨r, -, rfl⟩ := Option.map_eq_some_iff.mp here
  rfl

/-! ## The job of a request -/

/-- What a push stores for the request has all its attempts before it. -/
theorem unspent_stored {rec : JobState} {s : Slot} (found : s.record = some rec)
    (stores : Stores lib (enqueueRequestToJob clockwork req) j rec) (attempt : rec.attempt = 0)
    (pending : rec.state ≠ .discarded) : s.Unspent 0 := by
  obtain ⟨state, now, rfl⟩ := stores
  constructor
  · exact ⟨_, found⟩
  · exact Slot.forall_record found (enqueueRequestToJob_maxAttempts clockwork req)
  · exact Slot.forall_record found (patternless_enqueueRequestToJob clockwork req)
  · exact Slot.forall_record found (enqueueRequestToJob_expiresAt clockwork req)
  · exact Slot.forall_record found attempt
  · rw [Slot.state, found]
    exact fun discarded => pending (Option.some.inj discarded)

theorem Evolves.unspent_pushed {now : Int} {s s' : Slot}
    (h : s.Evolves lib now j (Pushes (Stores lib (enqueueRequestToJob clockwork req)) j) s')
    (placed : s.Placed j) (absent : s.record = none) : s'.record = none ∨ s'.Unspent 0 := by
  induction h with
  | refl => exact .inl absent
  | tail before step ih =>
    obtain ⟨m, ok, step⟩ := step
    rcases ih with none | unspent
    · rcases ok with ⟨rec, rfl | rfl, stores⟩ | rfl
      · cases step with
        | enqueue _ _ state _ untried =>
          exact .inr (unspent_stored rfl stores untried (by simp [state]))
        | requeue other => simp at other
      · cases step with
        | schedule _ _ state _ untried =>
          exact .inr (unspent_stored rfl stores untried (by simp [state]))
        | requeue other => simp at other
      · cases step with
        | cancel found => cases none.symm.trans found
        | requeue other => simp at other
    · refine .inr (step.unspent (Slot.Evolves.placed before placed) ?_ unspent)
      rcases ok with ⟨rec, rfl | rfl, -⟩ | rfl <;> simp

/-- The job that a request brings has all its attempts before it. -/
theorem unspent_enqueued (sound : Sound w)
    (enqueued : Step lib w (.call (.push (enqueueRequestToJob clockwork req)) reply) u)
    (absent : (w.slot j).record = none) (stored : (u.slot j).record ≠ none) :
    (u.slot j).Unspent 0 :=
  (Evolves.unspent_pushed (enqueued.evolves sound j) (sound.placed j) absent).resolve_left stored

/-! ## The limit of the request -/

/-- The limit of the request is the number of failures that the job gets. -/
def HonoursRequest (req : EnqueueRequest) (j : String) (trace : List Passage) : Prop :=
  ∃ n, req.maxAttempts = some n ∧ HonoursLimit n j trace

/-- A limit is honoured exactly if it is three or there are too few failures to tell. -/
theorem honoursRequest_iff {n : Int} (reachable : Reachable lib w)
    (limit : req.maxAttempts = some n) (positive : 1 ≤ n)
    (enqueued : Step lib w (.call (.push (enqueueRequestToJob clockwork req)) reply) u)
    (absent : (w.slot j).record = none) (stored : (u.slot j).record ≠ none)
    (run : Run lib u trace t) (only : ∀ p ∈ trace, OnlyFails j p) :
    HonoursRequest req j trace ↔ n = 3 ∨ (failures j trace : Int) < min n 3 := by
  have unspent := unspent_enqueued reachable.sound enqueued absent stored
  rw [← run.honoursLimit_iff (enqueued.sound reachable.sound) only unspent positive]
  constructor
  · rintro ⟨n', limit', honours⟩
    obtain rfl := Option.some.inj (limit.symm.trans limit')
    exact honours
  · intro honours
    exact ⟨n, limit, honours⟩

/-! ## Requests for one attempt and for three -/

/-- Durations of whole seconds, and one instant: the requests below name neither. -/
def sampleClockwork : Clockwork where
  durationString := fun d => toString (d / 1000000000) ++ "s"
  formatRFC3339 := fun _ => "2026-01-01T00:00:00Z"

/-- A mail that may be tried so many times. -/
def mail (maxAttempts : Int) : EnqueueRequest where
  type := "mail"
  options := some { queue := "mails", retry := some { maxAttempts := maxAttempts } }

def mailID : String := "00000000-0000-7000-8000-000000000000"

def enqueueMail (maxAttempts : Int) : Call :=
  .push (enqueueRequestToJob sampleClockwork (mail maxAttempts))

/-- The world in which the mail was just enqueued. -/
def mailed (maxAttempts : Int) : World :=
  after (World.start (Core.Sample.instant 0)) (enqueueMail maxAttempts)

def fetchMail : Cue := .call (.fetch ["mails"] 1 "worker-1" 0)

def failMail : Cue := .call (.nack mailID (some { message := "no route" }) false)

/-- The passage is a failure of the mail, or leaves it active. -/
def onlyFails (p : Passage) : Bool :=
  (p.before.slot mailID).state ≠ some .active || (p.after.slot mailID).state = some .active ||
    match p.event with
    | .call (.nack k (some e) false) (.nacked (.ok _)) => k = mailID && e.retryable = none
    | _ => false

theorem onlyFails_of_check {p : Passage} (checked : onlyFails p = true) : OnlyFails mailID p := by
  intro before after
  simp only [onlyFails, before, after, ne_eq, not_true_eq_false, decide_false,
    Bool.false_or] at checked
  split at checked
  · rename_i k e reply same
    simp only [Bool.and_eq_true, decide_eq_true_eq] at checked
    obtain ⟨rfl, unset⟩ := checked
    refine ⟨_, _, same, ?_⟩
    rintro ⟨e', here, flag⟩
    cases here
    rw [unset] at flag
    cases flag
  · cases checked

/-- What the runs below are checked for. -/
def checks (r : List Passage × World) : Nat × Bool := (failures mailID r.1, r.1.all onlyFails)

theorem enqueued_mailed (maxAttempts : Int)
    (ends : (execute ((enqueueMail maxAttempts).program sample)
      ((World.start (Core.Sample.instant 0)).accept (enqueueMail maxAttempts))).isSome) :
    ∃ reply, Step sample (World.start (Core.Sample.instant 0))
      (.call (enqueueMail maxAttempts) reply) (mailed maxAttempts) :=
  exists_step_after (fresh_of_no_ids rfl) ends

/-- A mail with two attempts is retried after its first failure. -/
theorem honoursRequest_iff_mail : ∃ trace t,
    play (mailed 2) [fetchMail, failMail] = some (trace, t) ∧ failures mailID trace = 1 ∧
      HonoursRequest (mail 2) mailID trace := by
  have checked : (play (mailed 2) [fetchMail, failMail]).map checks = some (1, true) := by decide
  obtain ⟨⟨trace, t⟩, played, facts⟩ := Option.map_eq_some_iff.mp checked
  obtain ⟨count, only⟩ := Prod.mk.inj facts
  obtain ⟨reply, enqueued⟩ := enqueued_mailed 2 (by decide)
  refine ⟨trace, t, played, count, (honoursRequest_iff (.start (by decide)) rfl (by decide)
    enqueued rfl (by decide) (run_of_play played) fun p mem => ?_).mpr (.inr ?_)⟩
  · exact onlyFails_of_check (List.all_eq_true.mp only p mem)
  · rw [count]
    decide

/-- After its only failure the mail is retried. -/
theorem not_honoursRequest : ¬ ∀ (lib : Externals) (clockwork : Clockwork) (w u t : World)
    (req : EnqueueRequest) (j : String) (reply : Reply) (trace : List Passage) (n : Int),
    Reachable lib w → req.maxAttempts = some n → 1 ≤ n →
    Step lib w (.call (.push (enqueueRequestToJob clockwork req)) reply) u →
    (w.slot j).record = none → (u.slot j).record ≠ none → Run lib u trace t →
    (∀ p ∈ trace, OnlyFails j p) → HonoursRequest req j trace := by
  intro honours
  have checked : (play (mailed 1) [fetchMail, failMail]).map checks = some (1, true) := by decide
  obtain ⟨⟨trace, t⟩, played, facts⟩ := Option.map_eq_some_iff.mp checked
  obtain ⟨count, only⟩ := Prod.mk.inj facts
  obtain ⟨reply, enqueued⟩ := enqueued_mailed 1 (by decide)
  have run := run_of_play played
  have only (p : Passage) (mem : p ∈ trace) : OnlyFails mailID p :=
    onlyFails_of_check (List.all_eq_true.mp only p mem)
  obtain ⟨n, limit, honoured⟩ := honours sample sampleClockwork _ _ t (mail 1) mailID reply trace 1
    (.start (by decide)) rfl (by decide) enqueued rfl (by decide) run only
  have single : n = 1 := (Option.some.inj limit).symm
  subst single
  have unspent := unspent_enqueued (j := mailID) (Sound.start _) enqueued rfl (by decide)
  have told := (run.honoursLimit_iff (enqueued.sound (Sound.start _)) only unspent (by decide)).mp
    honoured
  rw [count] at told
  exact absurd told (by decide)

end OjsNats.Grpc
