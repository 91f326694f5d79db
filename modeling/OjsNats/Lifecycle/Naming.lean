import OjsNats.Lifecycle.Backlog

/-!
# The names of queues

A queue's name becomes part of a subject and of a durable name, and is a key of
the queue bucket.  The API admits dots in it, which a durable name may not have.
-/

namespace OjsNats.Nats

open Core

def consumerName (queue : String) : String := "ojs-consumer-" ++ queue

/-! ## Grammars -/

/-- What a queue's name may begin with. -/
def nameStart (c : Char) : Bool := ('a' ≤ c && c ≤ 'z') || ('0' ≤ c && c ≤ '9')

def nameChar (c : Char) : Bool := nameStart c || c == '-' || c == '.'

/-- The names that the API documents: `^[a-z0-9][a-z0-9\-\.]*$`. -/
def IsQueueName (name : String) : Prop :=
  ∃ first rest, name.toList = first :: rest ∧ nameStart first ∧ rest.all nameChar

/-- A subject without empty tokens and wildcards. -/
def LiteralSubject (subject : String) : Prop :=
  ∀ token ∈ subject.toList.splitOn '.', token ≠ [] ∧ token ≠ ['*'] ∧ token ≠ ['>']

/-- A durable name has none of these characters. -/
def forbidden : List Char := ['.', '*', '>', '/', '\\', ' ', '\t', '\n', '\r']

def LegalDurable (name : String) : Prop := name ≠ "" ∧ ∀ c ∈ name.toList, c ∉ forbidden

def keyChar (c : Char) : Bool :=
  ('a' ≤ c && c ≤ 'z') || ('A' ≤ c && c ≤ 'Z') || ('0' ≤ c && c ≤ '9') ||
    ['-', '/', '_', '=', '.'].contains c

def LegalKey (key : String) : Prop :=
  key.toList.all keyChar ∧ key.toList.head? ≠ some '.' ∧ key.toList.getLast? ≠ some '.' ∧ key ≠ ""

/-- The queue has names of its own in the stream, and legal ones. -/
structure UsableName (queue : String) : Prop where
  subject : LiteralSubject (queueJobsSubject queue)
  durable : LegalDurable (consumerName queue)
  key : LegalKey queue
  apart : ∀ other, IsQueueName other → other ≠ queue →
    queueJobsSubject other ≠ queueJobsSubject queue ∧ consumerName other ≠ consumerName queue
  reached : ∀ stream, ∀ msg ∈ stream, msg.subject = queueJobsSubject queue →
    ∃ n, msg ∈ (deliver (queueJobsSubject queue) n stream).1
  spared : ∀ other n stream, ∀ msg ∈ (deliver (queueJobsSubject other) n stream).1,
    msg.subject = queueJobsSubject queue → other = queue

section Names

variable {queue : String} {c : Char}

theorem consumerName_injective {other : String} (same : consumerName other = consumerName queue) :
    other = queue := by
  unfold consumerName at same
  rwa [String.append_right_inj] at same

theorem IsQueueName.chars (name : IsQueueName queue) (mem : c ∈ queue.toList) : nameChar c := by
  obtain ⟨first, rest, whole, start, all⟩ := name
  rw [whole] at mem
  rcases List.mem_cons.mp mem with rfl | later
  · simp [nameChar, start]
  · exact List.all_eq_true.mp all c later

theorem keyChar_of_nameChar (char : nameChar c) : keyChar c := by
  simp only [nameChar, nameStart, Bool.or_eq_true, Bool.and_eq_true, beq_iff_eq,
    decide_eq_true_eq] at char
  simp only [keyChar, Bool.or_eq_true, Bool.and_eq_true, List.contains_eq_mem, decide_eq_true_eq]
  rcases char with ((letter | digit) | rfl) | rfl
  · exact .inl (.inl (.inl letter))
  · exact .inl (.inr digit)
  · exact .inr (by simp)
  · exact .inr (by simp)

theorem not_forbidden_of_nameChar (char : nameChar c) (dotless : c ≠ '.') : c ∉ forbidden := by
  intro mem
  simp only [forbidden, List.mem_cons, List.not_mem_nil, or_false] at mem
  rcases mem with rfl | rfl | rfl | rfl | rfl | rfl | rfl | rfl | rfl
  · exact dotless rfl
  all_goals simp [nameChar, nameStart] at char

/-- The tokens of a queue's subject. -/
theorem tokens_queueJobsSubject : (queueJobsSubject queue).toList.splitOn '.' =
    "ojs".toList :: "queue".toList :: (queue.toList.splitOn '.' ++ ["jobs".toList]) := by
  have whole : (queueJobsSubject queue).toList =
      "ojs".toList ++ '.' :: ("queue".toList ++ '.' :: (queue.toList ++ '.' :: "jobs".toList)) := by
    simp [queueJobsSubject]
  rw [whole, List.splitOn_append_cons_self, List.splitOn_append_cons_self,
    List.splitOn_append_cons_self]
  rfl

theorem literalSubject_of_dotless (name : IsQueueName queue) (dotless : '.' ∉ queue.toList) :
    LiteralSubject (queueJobsSubject queue) := by
  intro token mem
  rw [tokens_queueJobsSubject, List.splitOn_eq_singleton dotless] at mem
  simp only [List.cons_append, List.nil_append, List.mem_cons, List.not_mem_nil, or_false] at mem
  rcases mem with rfl | rfl | rfl | rfl
  · decide
  · decide
  · have wild (c : Char) (same : queue.toList = [c]) : nameChar c :=
      name.chars (same ▸ List.mem_singleton_self c)
    refine ⟨?_, fun same => ?_, fun same => ?_⟩
    · obtain ⟨first, rest, whole, -⟩ := name
      simp [whole]
    · exact absurd (wild '*' same) (by decide)
    · exact absurd (wild '>' same) (by decide)
  · decide

theorem legalDurable_of_dotless (name : IsQueueName queue) (dotless : '.' ∉ queue.toList) :
    LegalDurable (consumerName queue) := by
  have whole : (consumerName queue).toList = "ojs-consumer-".toList ++ queue.toList :=
    String.toList_append
  constructor
  · intro empty
    rw [empty] at whole
    simp at whole
  · intro c mem
    rw [whole] at mem
    rcases List.mem_append.mp mem with first | last
    · have legal : ∀ c ∈ "ojs-consumer-".toList, c ∉ forbidden := by simp [forbidden]
      exact legal c first
    · refine not_forbidden_of_nameChar (name.chars last) ?_
      rintro rfl
      exact dotless last

theorem legalKey_of_dotless (name : IsQueueName queue) (dotless : '.' ∉ queue.toList) :
    LegalKey queue := by
  refine ⟨List.all_eq_true.mpr fun c mem => keyChar_of_nameChar (name.chars mem), ?_, ?_, ?_⟩
  · exact fun head => dotless (List.mem_of_head? head)
  · exact fun last => dotless (List.mem_of_getLast? last)
  · rintro rfl
    obtain ⟨first, rest, whole, -⟩ := name
    cases whole

/-- A documented name is usable exactly if there is no dot in it. -/
theorem usableName_iff (name : IsQueueName queue) :
    UsableName queue ↔ '.' ∉ queue.toList := by
  constructor
  · intro usable dotted
    have inside : '.' ∈ (consumerName queue).toList := by
      rw [consumerName, String.toList_append]
      exact List.mem_append_right _ dotted
    exact usable.durable.2 '.' inside (by simp [forbidden])
  · intro dotless
    constructor
    · exact literalSubject_of_dotless name dotless
    · exact legalDurable_of_dotless name dotless
    · exact legalKey_of_dotless name dotless
    · intro other _ different
      exact ⟨fun same => different (queueJobsSubject_injective same),
        fun same => different (consumerName_injective same)⟩
    · intro stream msg mem own
      refine ⟨stream.length, ?_⟩
      rw [Lifecycle.deliver_fst, List.take_of_length_le (List.length_filter_le _ _)]
      simpa [own] using mem
    · intro other n stream msg mem same
      exact queueJobsSubject_injective ((Lifecycle.deliver_subject mem).symm.trans same)

theorem usableName_mails : UsableName "mails-1" :=
  (usableName_iff ⟨'m', "ails-1".toList, by decide, by decide, by decide⟩).mpr (by decide)

theorem not_usableName : ¬ ∀ queue, IsQueueName queue → UsableName queue := by
  intro usable
  have name : IsQueueName "mails.high" :=
    ⟨'m', "ails.high".toList, by decide, by decide, by decide⟩
  have legal := (usable _ name).durable.2 '.' (by decide)
  exact absurd legal (by decide)

end Names

end OjsNats.Nats
