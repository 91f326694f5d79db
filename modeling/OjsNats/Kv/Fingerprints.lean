import Mathlib.Data.List.Sort
import OjsNats.Core.Sample
import OjsNats.Kv.Stores

/-!
# What a fingerprint tells apart

`ComputeFingerprint` hashes the listed fields one after the other, each behind
its label.  Keys other than `type`, `args` and `queue` leave no trace in the
text, and a queue can run into the type behind it.
-/

namespace OjsNats.Nats

open Core UniqueStore

/-! ## Copies of a text -/

/-- So many copies of a text. -/
def copies (n : Nat) (s : String) : String := String.join (List.replicate n s)

@[simp] theorem copies_zero (s : String) : copies 0 s = "" := by simp [copies]

theorem copies_succ (n : Nat) (s : String) : copies (n + 1) s = s ++ copies n s := by
  simp [copies, List.replicate_succ]

theorem length_copies (n : Nat) (s : String) : (copies n s).length = n * s.length := by
  induction n with
  | zero => simp
  | succ n ih => rw [copies_succ, String.length_append, ih, Nat.succ_mul, Nat.add_comm]

/-- Two texts agree if they begin alike and are equally long up to there. -/
theorem append_inj_left {s s' t t' : String} (same : s ++ t = s' ++ t')
    (length : s.length = s'.length) : s = s' := by
  have lists := congrArg String.toList same
  rw [String.toList_append, String.toList_append] at lists
  exact String.toList_inj.mp (List.append_inj_left lists
    (by rw [String.length_toList, String.length_toList, length]))

/-- As many copies of two texts are the same only if there are none or the texts are. -/
theorem copies_inj {n : Nat} {s s' : String} : copies n s = copies n s' ↔ (0 < n → s = s') := by
  constructor
  · intro same positive
    obtain ⟨n, rfl⟩ := Nat.exists_eq_succ_of_ne_zero (Nat.ne_of_gt positive)
    have length := congrArg String.length same
    rw [length_copies, length_copies] at length
    rw [copies_succ, copies_succ] at same
    exact append_inj_left same (Nat.eq_of_mul_eq_mul_left n.succ_pos length)
  · intro same
    rcases n.eq_zero_or_pos with rfl | positive
    · simp
    · rw [same positive]

/-- Two ways to cut one text in two. -/
theorem append_eq_append_iff {s s' t t' : String} : s ++ t = s' ++ t' ↔
    (s = s' ∧ t = t') ∨ (∃ z, z ≠ "" ∧ s' = s ++ z ∧ t = z ++ t') ∨
      ∃ z, z ≠ "" ∧ s = s' ++ z ∧ t' = z ++ t := by
  constructor
  · intro same
    have lists := congrArg String.toList same
    rw [String.toList_append, String.toList_append, List.append_eq_append_iff] at lists
    have read {x y : String} {z : List Char} (h : x.toList = y.toList ++ z) :
        x = y ++ String.ofList z := by
      rw [← String.toList_inj, String.toList_append, String.toList_ofList, h]
    have read' {x y : String} {z : List Char} (h : x.toList = z ++ y.toList) :
        x = String.ofList z ++ y := by
      rw [← String.toList_inj, String.toList_append, String.toList_ofList, h]
    by_cases equal : s = s'
    · subst equal
      exact .inl ⟨rfl, (String.append_right_inj s).mp same⟩
    rcases lists with ⟨z, longer, rest⟩ | ⟨z, longer, rest⟩
    · refine .inr (.inl ⟨String.ofList z, fun empty => equal ?_, read longer, read' rest⟩)
      simpa [empty] using (read longer).symm
    · refine .inr (.inr ⟨String.ofList z, fun empty => equal ?_, read longer, read' rest⟩)
      simpa [empty] using read longer
  · rintro (⟨rfl, rfl⟩ | ⟨z, -, rfl, rfl⟩ | ⟨z, -, rfl, rfl⟩)
    · rfl
    · rw [String.append_assoc]
    · rw [String.append_assoc]

/-! ## The text that is hashed -/

/-- The keys that `ComputeFingerprint` goes through, before it sorts them. -/
def listedKeys (unique : UniquePolicy) : List String :=
  if unique.keys = [] then ["type", "args"] else unique.keys

/-- The text that `ComputeFingerprint` hashes. -/
def fingerprintText (lib : Externals) (job : Job) (unique : UniquePolicy) : String :=
  String.join ((listedKeys unique).mergeSort.map (fingerprintPart lib job))

theorem computeFingerprint_eq (lib : Externals) (job : Job) (unique : UniquePolicy) :
    computeFingerprint lib job unique = lib.sha256Hex (fingerprintText lib job unique) := rfl

/-- The keys that leave a trace in the text. -/
def Hashed (key : String) : Bool := key = "args" || key = "queue" || key = "type"

def argsText (lib : Externals) (job : Job) : String :=
  match job.args with
  | some args => lib.rawText args
  | none => ""

variable {lib : Externals} {job a b : Job} {unique : UniquePolicy}

theorem join_hashed (keys : List String) : String.join (keys.map (fingerprintPart lib job)) =
    String.join ((keys.filter Hashed).map (fingerprintPart lib job)) := by
  induction keys with
  | nil => rfl
  | cons key rest ih =>
    by_cases hashed : Hashed key = true
    · rw [List.filter_cons_of_pos hashed, List.map_cons, List.map_cons, String.join_cons,
        String.join_cons, ih]
    · have blank : fingerprintPart lib job key = "" := by
        simp only [Hashed, Bool.or_eq_true, decide_eq_true_eq, not_or] at hashed
        simp [fingerprintPart, hashed]
      rw [List.filter_cons_of_neg hashed, List.map_cons, String.join_cons, ih, blank,
        String.empty_append]

/-- The keys that leave a trace, in the order in which they are sorted. -/
def blocks (keys : List String) : List String :=
  List.replicate (keys.count "args") "args" ++ (List.replicate (keys.count "queue") "queue" ++
    List.replicate (keys.count "type") "type")

theorem perm_blocks (keys : List String) : (keys.filter Hashed).Perm (blocks keys) := by
  rw [List.perm_iff_count]
  intro key
  simp only [blocks, List.count_append, List.count_replicate, beq_iff_eq]
  by_cases hashed : Hashed key = true
  · rw [List.count_filter hashed]
    simp only [Hashed, Bool.or_eq_true, decide_eq_true_eq] at hashed
    rcases hashed with (rfl | rfl) | rfl <;> simp
  · have absent : key ∉ keys.filter Hashed := fun mem => hashed (List.of_mem_filter mem)
    rw [List.count_eq_zero_of_not_mem absent]
    simp only [Hashed, Bool.or_eq_true, decide_eq_true_eq, not_or] at hashed
    simp [Ne.symm hashed.1.1, Ne.symm hashed.1.2, Ne.symm hashed.2]

theorem pairwise_blocks (keys : List String) : (blocks keys).Pairwise (· ≤ ·) := by
  have copies (n : Nat) (key : String) : (List.replicate n key).Pairwise (· ≤ ·) :=
    List.pairwise_replicate.mpr (.inr (String.le_refl key))
  refine List.pairwise_append.mpr
    ⟨copies _ _, List.pairwise_append.mpr ⟨copies _ _, copies _ _, ?_⟩, ?_⟩
  · intro x hx y hy
    rw [List.eq_of_mem_replicate hx, List.eq_of_mem_replicate hy]
    decide
  · intro x hx y hy
    rw [List.eq_of_mem_replicate hx]
    rcases List.mem_append.mp hy with hy | hy
    · rw [List.eq_of_mem_replicate hy]
      decide
    · rw [List.eq_of_mem_replicate hy]
      decide

theorem pairwise_mergeSort (keys : List String) : keys.mergeSort.Pairwise (· ≤ ·) := by
  have sorted : keys.mergeSort.Pairwise fun a b => decide (a ≤ b) = true := by
    apply List.pairwise_mergeSort
    · intro a b c first second
      simp only [decide_eq_true_eq] at *
      exact String.le_trans first second
    · intro a b
      simpa using String.le_total a b
  exact sorted.imp fun le => of_decide_eq_true le

/-- The text: the labelled arguments, queues and types, each as often as its key is listed. -/
theorem fingerprintText_eq : fingerprintText lib job unique =
    copies ((listedKeys unique).count "args") ("args:" ++ argsText lib job) ++
      (copies ((listedKeys unique).count "queue") ("queue:" ++ job.queue) ++
        copies ((listedKeys unique).count "type") ("type:" ++ job.type)) := by
  have sorted : ((listedKeys unique).mergeSort).filter Hashed = blocks (listedKeys unique) := by
    exact List.Perm.eq_of_pairwise (fun _ _ _ _ => String.le_antisymm)
      ((pairwise_mergeSort _).filter Hashed) (pairwise_blocks _)
      (((List.mergeSort_perm _ _).filter Hashed).trans (perm_blocks _))
  have argsPart : fingerprintPart lib job "args" = "args:" ++ argsText lib job := rfl
  have queuePart : fingerprintPart lib job "queue" = "queue:" ++ job.queue := rfl
  have typePart : fingerprintPart lib job "type" = "type:" ++ job.type := rfl
  rw [fingerprintText, join_hashed, sorted, blocks, List.map_append, List.map_append,
    String.join_append, String.join_append, List.map_replicate, List.map_replicate,
    List.map_replicate, argsPart, queuePart, typePart, copies, copies, copies]

/-! ## Where one field ends -/

/-- What every complete JSON text is like. -/
structure Grammatical (rawText : RawMessage → String) : Prop where
  /-- It is a literal or does not begin with a letter. -/
  begins : ∀ raw, rawText raw ∈ ["null", "true", "false"] ∨
    ∃ c rest, rawText raw = String.ofList (c :: rest) ∧ c.isLower = false
  /-- The only letter with which it can go on to a longer text is that of an exponent. -/
  continues : ∀ raw raw' c rest, rawText raw' = rawText raw ++ String.ofList (c :: rest) →
    c.isLower = true → c = 'e'

/-- The text is empty or begins with a label. -/
def AtLabel (s : String) : Prop :=
  s = "" ∨ ∃ label ∈ ["args:", "queue:", "type:"], ∃ rest, s = label ++ rest

theorem AtLabel.copies {n : Nat} {label s rest : String} (atLabel : AtLabel rest)
    (known : label ∈ ["args:", "queue:", "type:"]) :
    AtLabel (copies n (label ++ s) ++ rest) := by
  cases n with
  | zero => simpa using atLabel
  | succ n =>
    refine .inr ⟨label, known, s ++ (Nats.copies n (label ++ s) ++ rest), ?_⟩
    rw [copies_succ, String.append_assoc, String.append_assoc]

theorem AtLabel.chars {c : Char} {cs : List Char} (atLabel : AtLabel (String.ofList (c :: cs))) :
    c = 'a' ∨ c = 'q' ∨ c = 't' ∧ ∃ cs', cs = 'y' :: cs' := by
  rcases atLabel with empty | ⟨label, known, rest, same⟩
  · have lists := congrArg String.toList empty
    simp at lists
  · have lists := congrArg String.toList same
    simp only [List.mem_cons, List.not_mem_nil, or_false] at known
    rw [String.toList_append, String.toList_ofList] at lists
    rcases known with rfl | rfl | rfl
    · exact .inl (List.cons.inj lists).1
    · exact .inr (.inl (List.cons.inj lists).1)
    · obtain ⟨first, others⟩ := List.cons.inj lists
      exact .inr (.inr ⟨first, _, others⟩)

/-- No argument text goes on with a text that begins like a label. -/
theorem argsText_ends (grammar : Grammatical lib.rawText) {z rest : String} (nonempty : z ≠ "")
    (longer : argsText lib b = argsText lib a ++ z) : ¬ AtLabel (z ++ rest) := by
  intro atLabel
  obtain ⟨c, cs, rfl⟩ : ∃ c cs, z = String.ofList (c :: cs) := by
    cases h : z.toList with
    | nil => exact absurd (String.toList_inj.mp (by simpa using h)) nonempty
    | cons c cs => exact ⟨c, cs, by rw [← String.toList_inj, String.toList_ofList, h]⟩
  have joined : String.ofList (c :: cs) ++ rest = String.ofList (c :: (cs ++ rest.toList)) := by
    rw [← String.toList_inj, String.toList_append, String.toList_ofList, String.toList_ofList,
      List.cons_append]
  rw [joined] at atLabel
  have chars := atLabel.chars
  unfold argsText at longer
  cases later : b.args with
  | none =>
    rw [later] at longer
    have lists := congrArg String.toList longer
    simp at lists
  | some raw' =>
    rw [later] at longer
    cases first : a.args with
    | some raw =>
      rw [first] at longer
      have exponent := grammar.continues raw raw' c cs longer
      rcases chars with rfl | rfl | ⟨rfl, -⟩ <;> exact absurd (exponent rfl) (by decide)
    | none =>
      rw [first] at longer
      dsimp only at longer
      rw [String.empty_append] at longer
      rcases grammar.begins raw' with literal | ⟨c', rest', begins, other⟩
      · simp only [List.mem_cons, List.not_mem_nil, or_false, longer, ← String.toList_inj,
          String.toList_ofList] at literal
        rcases literal with lists | lists | lists
        · obtain ⟨rfl, -⟩ : c = 'n' ∧ cs = ['u', 'l', 'l'] := by simpa using lists
          simp at chars
        · obtain ⟨rfl, rfl⟩ : c = 't' ∧ cs = ['r', 'u', 'e'] := by simpa using lists
          simp at chars
        · obtain ⟨rfl, -⟩ : c = 'f' ∧ cs = ['a', 'l', 's', 'e'] := by simpa using lists
          simp at chars
      · rw [longer, ← String.toList_inj, String.toList_ofList, String.toList_ofList] at begins
        obtain ⟨rfl, -⟩ := List.cons.inj begins
        rcases chars with rfl | rfl | ⟨rfl, -⟩ <;> cases other

/-- Argument texts can be read back in front of a label. -/
theorem argsText_append_inj (grammar : Grammatical lib.rawText) {rest rest' : String}
    (atLabel : AtLabel rest) (atLabel' : AtLabel rest') :
    argsText lib a ++ rest = argsText lib b ++ rest' ↔
      argsText lib a = argsText lib b ∧ rest = rest' := by
  constructor
  · intro same
    rcases append_eq_append_iff.mp same with equal | ⟨z, nonempty, longer, tail⟩ |
      ⟨z, nonempty, longer, tail⟩
    · exact equal
    · exact absurd (tail ▸ atLabel) (argsText_ends grammar nonempty longer)
    · exact absurd (tail ▸ atLabel') (argsText_ends grammar nonempty longer)
  · rintro ⟨same, rfl⟩
    rw [same]

theorem copies_args_inj (grammar : Grammatical lib.rawText) {n : Nat} {rest rest' : String}
    (atLabel : AtLabel rest) (atLabel' : AtLabel rest') :
    copies n ("args:" ++ argsText lib a) ++ rest = copies n ("args:" ++ argsText lib b) ++ rest' ↔
      (0 < n → argsText lib a = argsText lib b) ∧ rest = rest' := by
  induction n with
  | zero => simp
  | succ n ih =>
    have turn : argsText lib a ++ (copies n ("args:" ++ argsText lib a) ++ rest) =
        argsText lib b ++ (copies n ("args:" ++ argsText lib b) ++ rest') ↔
        argsText lib a = argsText lib b ∧ (0 < n → argsText lib a = argsText lib b) ∧
          rest = rest' := by
      rw [argsText_append_inj grammar (atLabel.copies (by simp)) (atLabel'.copies (by simp)), ih]
    rw [copies_succ, copies_succ, String.append_assoc, String.append_assoc, String.append_assoc,
      String.append_assoc, String.append_right_inj, turn]
    exact ⟨fun ⟨same, _, rests⟩ => ⟨fun _ => same, rests⟩,
      fun ⟨same, rests⟩ => ⟨same n.succ_pos, fun _ => same n.succ_pos, rests⟩⟩

/-! ## Where a queue runs into the type behind it -/

/-- The labelled queues of `b` are those of `a` and a text with which the labelled types
of `a` begin, before they go on as those of `b`. -/
def RunsOn (unique : UniquePolicy) (a b : Job) : Prop := ∃ z, z ≠ "" ∧
  copies ((listedKeys unique).count "queue") ("queue:" ++ b.queue) =
    copies ((listedKeys unique).count "queue") ("queue:" ++ a.queue) ++ z ∧
  copies ((listedKeys unique).count "type") ("type:" ++ a.type) =
    z ++ copies ((listedKeys unique).count "type") ("type:" ++ b.type)

/-- The hashed text tells the listed queues and types apart unless one queue runs on. -/
theorem text_eq_iff (grammar : Grammatical lib.rawText) :
    fingerprintText lib a unique = fingerprintText lib b unique ↔
      ("args" ∈ listedKeys unique → argsText lib a = argsText lib b) ∧
      ((("queue" ∈ listedKeys unique → a.queue = b.queue) ∧
        ("type" ∈ listedKeys unique → a.type = b.type)) ∨
        RunsOn unique a b ∨ RunsOn unique b a) := by
  have types (job : Job) :
      AtLabel (copies ((listedKeys unique).count "type") ("type:" ++ job.type)) := by
    have atLabel := AtLabel.copies (n := (listedKeys unique).count "type") (s := job.type)
      (.inl rfl) (show "type:" ∈ ["args:", "queue:", "type:"] by simp)
    rwa [String.append_empty] at atLabel
  rw [fingerprintText_eq, fingerprintText_eq, copies_args_inj grammar
    ((types a).copies (by simp)) ((types b).copies (by simp)), append_eq_append_iff, copies_inj,
    copies_inj, String.append_right_inj, String.append_right_inj, List.count_pos_iff,
    List.count_pos_iff, List.count_pos_iff]
  exact Iff.rfl

/-- With both keys listed once, the longer queue holds the label of the type. -/
theorem runsOn_once (queue : (listedKeys unique).count "queue" = 1)
    (type : (listedKeys unique).count "type" = 1) : RunsOn unique a b ↔
      ∃ r, b.queue = a.queue ++ "type:" ++ r ∧ a.type = r ++ "type:" ++ b.type := by
  have once (s : String) : copies 1 s = s := by simp [copies_succ]
  unfold RunsOn
  rw [queue, type]
  simp only [once]
  constructor
  · rintro ⟨z, nonempty, queues, types⟩
    have lists := congrArg String.toList types
    rw [String.toList_append, String.toList_append, String.toList_append] at lists
    obtain ⟨r, rfl⟩ : ∃ r, z = "type:" ++ r := by
      match shape : z.toList with
      | [] => exact absurd (String.toList_inj.mp (by simpa using shape)) nonempty
      | [_] | [_, _] | [_, _, _] | [_, _, _, _] => simp [shape] at lists
      | c₁ :: c₂ :: c₃ :: c₄ :: c₅ :: cs =>
        rw [shape] at lists
        obtain ⟨rfl, rfl, rfl, rfl, rfl, -⟩ :
            't' = c₁ ∧ 'y' = c₂ ∧ 'p' = c₃ ∧ 'e' = c₄ ∧ ':' = c₅ ∧
              a.type.toList = cs ++ ("type:".toList ++ b.type.toList) := by
          simpa using lists
        exact ⟨String.ofList cs, by rw [← String.toList_inj, shape]; simp⟩
    rw [String.append_assoc, String.append_right_inj] at queues types
    exact ⟨r, by rw [queues, String.append_assoc], by rw [types, String.append_assoc]⟩
  · rintro ⟨r, queues, types⟩
    refine ⟨"type:" ++ r, by simp, ?_, ?_⟩
    · rw [queues, String.append_assoc, String.append_assoc]
    · rw [types, String.append_assoc, String.append_assoc]

/-! ## Agreement -/

/-- The jobs agree on the field of this name; raw messages are compared as texts. -/
def Agrees (lib : Externals) (a b : Job) (name : String) : Prop :=
  match name with
  | "id" => a.id = b.id
  | "type" => a.type = b.type
  | "state" => a.state = b.state
  | "queue" => a.queue = b.queue
  | "args" => a.args.map lib.rawText = b.args.map lib.rawText
  | "meta" => a.meta.map lib.rawText = b.meta.map lib.rawText
  | "priority" => a.priority = b.priority
  | "attempt" => a.attempt = b.attempt
  | "max_attempts" => a.maxAttempts = b.maxAttempts
  | "timeout_ms" => a.timeoutMs = b.timeoutMs
  | "created_at" => a.createdAt = b.createdAt
  | "enqueued_at" => a.enqueuedAt = b.enqueuedAt
  | "started_at" => a.startedAt = b.startedAt
  | "completed_at" => a.completedAt = b.completedAt
  | "cancelled_at" => a.cancelledAt = b.cancelledAt
  | "scheduled_at" => a.scheduledAt = b.scheduledAt
  | "result" => a.result.map lib.rawText = b.result.map lib.rawText
  | "error" => a.error.map lib.rawText = b.error.map lib.rawText
  | "errors" => a.errors.map lib.rawText = b.errors.map lib.rawText
  | "tags" => a.tags = b.tags
  | "retry" => a.retry = b.retry
  | "unique" => a.unique = b.unique
  | "expires_at" => a.expiresAt = b.expiresAt
  | "retry_delay_ms" => a.retryDelayMs = b.retryDelayMs
  | "parent_results" => a.parentResults.map lib.rawText = b.parentResults.map lib.rawText
  | "visibility_timeout_ms" => a.visibilityTimeoutMs = b.visibilityTimeoutMs
  | "workflow_id" => a.workflowID = b.workflowID
  | "workflow_step" => a.workflowStep = b.workflowStep
  | "rate_limit" => a.rateLimit = b.rateLimit
  | name => (a.unknownFields.lookup name).map lib.rawText =
      (b.unknownFields.lookup name).map lib.rawText

theorem agrees_args (grammar : Grammatical lib.rawText) :
    Agrees lib a b "args" ↔ argsText lib a = argsText lib b := by
  have nonempty (raw : RawMessage) : lib.rawText raw ≠ "" := by
    intro empty
    rcases grammar.begins raw with literal | ⟨c, rest, begins, -⟩
    · simp [empty] at literal
    · have lists := congrArg String.toList (empty.symm.trans begins)
      simp at lists
  change a.args.map lib.rawText = b.args.map lib.rawText ↔ _
  unfold argsText
  cases a.args with
  | none =>
    cases b.args with
    | none => simp
    | some raw => simp [Ne.symm (nonempty raw)]
  | some raw =>
    cases b.args with
    | none => simp [nonempty raw]
    | some raw' => simp

/-- The fingerprint of the policy identifies the selected fields of two jobs, in whatever
order its keys are listed. -/
def Identifies (lib : Externals) (unique : UniquePolicy) (a b : Job) : Prop :=
  (fingerprintText lib a unique = fingerprintText lib b unique ↔
    ∀ key ∈ listedKeys unique, Agrees lib a b key) ∧
  ∀ keys, keys.Perm unique.keys →
    (fingerprintText lib a { unique with keys := keys } =
      fingerprintText lib b { unique with keys := keys } ↔
      fingerprintText lib a unique = fingerprintText lib b unique)

/-- The hashed fields speak for the others, and neither queue runs into a type. -/
structure Telling (lib : Externals) (unique : UniquePolicy) (a b : Job) : Prop where
  covered : (∀ key ∈ listedKeys unique, Hashed key = true → Agrees lib a b key) →
    ∀ key ∈ listedKeys unique, Agrees lib a b key
  apart : ("args" ∈ listedKeys unique → Agrees lib a b "args") →
    ¬ RunsOn unique a b ∧ ¬ RunsOn unique b a

theorem fingerprintText_perm {keys : List String} (perm : keys.Perm unique.keys) :
    fingerprintText lib job { unique with keys := keys } = fingerprintText lib job unique := by
  have listed : (listedKeys { unique with keys := keys }).Perm (listedKeys unique) := by
    unfold listedKeys
    by_cases empty : unique.keys = []
    · rw [empty] at perm
      simp [empty, List.perm_nil.mp perm]
    · have nonempty : keys ≠ [] := by
        rintro rfl
        exact empty (List.nil_perm.mp perm)
      simpa [empty, nonempty] using perm
  rw [fingerprintText_eq, fingerprintText_eq, listed.count_eq, listed.count_eq, listed.count_eq]

/-- A queue that runs on is another queue. -/
theorem RunsOn.ne (runs : RunsOn unique a b) : "queue" ∈ listedKeys unique ∧ a.queue ≠ b.queue := by
  obtain ⟨z, nonempty, queues, -⟩ := runs
  constructor
  · by_contra unlisted
    rw [List.count_eq_zero_of_not_mem unlisted, copies_zero, copies_zero, String.empty_append]
      at queues
    exact nonempty queues.symm
  · intro same
    rw [same] at queues
    exact nonempty (String.append_eq_left_iff.mp queues.symm)

/-- The fingerprint identifies the selected fields exactly where the hashed fields speak
for all of them and no queue runs into a type. -/
theorem identifies_iff_telling (grammar : Grammatical lib.rawText) (unique : UniquePolicy)
    (a b : Job) : Identifies lib unique a b ↔ Telling lib unique a b := by
  have permuted : ∀ keys, keys.Perm unique.keys →
      (fingerprintText lib a { unique with keys := keys } =
        fingerprintText lib b { unique with keys := keys } ↔
        fingerprintText lib a unique = fingerprintText lib b unique) := by
    intro keys perm
    rw [fingerprintText_perm perm, fingerprintText_perm perm]
  have text : fingerprintText lib a unique = fingerprintText lib b unique ↔ _ :=
    text_eq_iff grammar
  rw [← agrees_args grammar] at text
  unfold Identifies
  rw [and_iff_left permuted, text]
  by_cases hashed : ∀ key ∈ listedKeys unique, Hashed key = true → Agrees lib a b key
  · have queue : "queue" ∈ listedKeys unique → a.queue = b.queue := fun mem => hashed _ mem rfl
    have type : "type" ∈ listedKeys unique → a.type = b.type := fun mem => hashed _ mem rfl
    have apart : ¬ RunsOn unique a b ∧ ¬ RunsOn unique b a :=
      ⟨fun runs => runs.ne.2 (queue runs.ne.1), fun runs => runs.ne.2 (queue runs.ne.1).symm⟩
    constructor
    · intro identifies
      have agree := identifies.mp ⟨fun mem => hashed _ mem rfl, .inl ⟨queue, type⟩⟩
      exact ⟨fun _ => agree, fun _ => apart⟩
    · intro telling
      exact ⟨fun _ => telling.covered hashed,
        fun agree => ⟨fun mem => agree _ mem, .inl ⟨queue, type⟩⟩⟩
  · have differ : ¬ ∀ key ∈ listedKeys unique, Agrees lib a b key :=
      fun agree => hashed fun key mem _ => agree key mem
    have fields : ¬ (("args" ∈ listedKeys unique → Agrees lib a b "args") ∧
        ("queue" ∈ listedKeys unique → a.queue = b.queue) ∧
        ("type" ∈ listedKeys unique → a.type = b.type)) := by
      rintro ⟨args, queue, type⟩
      refine hashed fun key mem known => ?_
      simp only [Hashed, Bool.or_eq_true, decide_eq_true_eq] at known
      rcases known with (rfl | rfl) | rfl
      · exact args mem
      · exact queue mem
      · exact type mem
    rw [iff_false_right differ]
    constructor
    · intro distinct
      exact ⟨fun agree => absurd agree hashed, fun args =>
        ⟨fun runs => distinct ⟨args, .inr (.inl runs)⟩,
          fun runs => distinct ⟨args, .inr (.inr runs)⟩⟩⟩
    · rintro telling ⟨args, alike | runs | runs⟩
      · exact fields ⟨args, alike⟩
      · exact (telling.apart args).1 runs
      · exact (telling.apart args).2 runs

/-- The texts of the raw messages of the worked jobs. -/
def plainText : RawMessage → String
  | .obj [] => "\x7b\x7d"
  | .arr [] => "[]"
  | _ => "null"

theorem plainText_cases (raw : RawMessage) :
    plainText raw = "\x7b\x7d" ∨ plainText raw = "[]" ∨ plainText raw = "null" := by
  unfold plainText
  split <;> simp

theorem grammatical_plainText : Grammatical plainText where
  begins := by
    intro raw
    rcases plainText_cases raw with text | text | text
    · exact .inr ⟨'\x7b', ['\x7d'], text, rfl⟩
    · exact .inr ⟨'[', [']'], text, rfl⟩
    · exact .inl (by simp [text])
  continues := by
    intro raw raw' c rest longer _
    have lists := congrArg String.toList longer
    rcases plainText_cases raw with text | text | text <;>
      rcases plainText_cases raw' with text' | text' | text' <;> simp [text, text'] at lists

/-- The sample externals with texts for raw messages. -/
def textual : Externals := { sample with rawText := plainText }

theorem identifies_iff_telling_args : Grammatical plainText ∧
    Identifies textual { keys := ["queue", "args", "queue"] }
      { type := "mail", queue := "mails", args := some (.arr []) }
      { type := "mail", queue := "mails" } := by
  refine ⟨grammatical_plainText, (identifies_iff_telling grammatical_plainText _ _ _).mpr ?_⟩
  refine ⟨fun agree key mem => agree key mem ?_, fun agree => ?_⟩
  · have listed : key = "queue" ∨ key = "args" ∨ key = "queue" := by simpa [listedKeys] using mem
    rcases listed with rfl | rfl | rfl <;> rfl
  · have same := agree (by simp [listedKeys])
    simp [Agrees] at same

/-- Two jobs that differ in the one listed field have one fingerprint. -/
theorem not_identifies : ¬ ∀ (lib : Externals) (unique : UniquePolicy) (a b : Job),
    Grammatical lib.rawText → Identifies lib unique a b := by
  intro identifies
  have law := (identifies textual { keys := ["meta"] }
    { type := "mail", queue := "mails", «meta» := some (.obj []) }
    { type := "mail", queue := "mails" } grammatical_plainText).1
  have same := law.mp (by simp [fingerprintText, listedKeys, fingerprintPart]) "meta"
    (by simp [listedKeys])
  simp [Agrees] at same

end OjsNats.Nats
