import OjsNats.Concurrent.Progress
import OjsNats.Concurrent.Schedule
import OjsNats.Lifecycle.Batches

/-!
# Reports are counted

Jobs of one workflow are reported at once, while the workflow is still being created.  As
long as no write of the workflow's record throws away progress that its operation has not
seen, the record counts every report, and the report that completes it alone pushes the
callbacks.
-/

namespace OjsNats.Concurrent

open Core Nats Lifecycle Effect

/-! ## The workflow -/

/-- The operation has created the workflow. -/
structure Founder (id : String) (call : Call) (g : Sight) : Prop where
  creates : call.operation = .createWorkflow
  named : g.named = some id
  wrote : g.writes ≠ 0

/-- The record is for the jobs that were requested. -/
structure Meant (req : WorkflowRequest) (r : WorkflowState) : Prop where
  type : r.type = req.type
  total : r.total = (requestedJobs req).length
  callbacks : r.callbacks = req.callbacks

/-- The workflow has one creator, and its record counts the reports on its jobs. -/
structure Tracked (id : String) (w : World) (views : List (Call × Sight)) : Prop where
  members : ∀ k rec, w.value .jobs k = some rec → rec.workflowID = id →
    w.value .workflows id ≠ none
  founder : ∀ r, w.value .workflows id = some r → ∃ (i : Nat) (req : WorkflowRequest) (g : Sight),
    views[i]? = some (.createWorkflow req, g) ∧ Founder id (.createWorkflow req) g ∧ Meant req r
  sole : ∀ (i k : Nat) (call call' : Call) (g g' : Sight), views[i]? = some (call, g) →
    views[k]? = some (call', g') → Founder id call g → Founder id call' g' → i = k
  alike : ∀ r, w.value .workflows id = some r → ∀ (i : Nat) (call : Call) (g : Sight)
    (r' : WorkflowState), views[i]? = some (call, g) → g.copy = some (id, r') → Kindred r r'
  tallied : ∀ r, w.value .workflows id = some r → r.type ≠ "chain" → Tallies id views r

section Tracked

variable {lib : Externals} {id : String} {first w t : World} {log : List (Action Call Op Ans)}
  {views : List (Call × Sight)} {r v : WorkflowState} {i : Nat} {call : Call} {g g' : Sight}
  {op : Op} {a : Ans op}

theorem Kindred.refl (r : WorkflowState) : Kindred r r := ⟨rfl, rfl, rfl⟩

theorem Kindred.symm (h : Kindred r v) : Kindred v r :=
  ⟨h.type.symm, h.total.symm, h.callbacks.symm⟩

theorem Kindred.trans {u : WorkflowState} (h : Kindred r v) (h' : Kindred v u) : Kindred r u :=
  ⟨h'.type.trans h.type, h'.total.trans h.total, h'.callbacks.trans h.callbacks⟩

theorem Meant.alike {req : WorkflowRequest} (h : Meant req r) (alike : Kindred r v) : Meant req v :=
  ⟨alike.type.trans h.type, alike.total.trans h.total, alike.callbacks.trans h.callbacks⟩

theorem not_founder_idle : ¬ Founder id call {} := fun founder => founder.wrote rfl

/-- The creator stays where it is. -/
theorem founder_set (view : views[i]? = some (call, g))
    (founds : Founder id call g' ↔ Founder id call g) {k : Nat} {call' : Call} {f : Sight}
    (at_k : views[k]? = some (call', f))
    (founder : Founder id call' f) :
    ∃ f', (views.set i (call, g'))[k]? = some (call', f') ∧ Founder id call' f' := by
  by_cases here : k = i
  · subst here
    cases at_k.symm.trans view
    exact ⟨g', List.getElem?_set_self (List.getElem?_eq_some_iff.mp view).1, founds.mpr founder⟩
  · exact ⟨f, (List.getElem?_set_ne (Ne.symm here)).trans at_k, founder⟩

theorem sole_set (h : Tracked id w views) (view : views[i]? = some (call, g))
    (founds : Founder id call g' → Founder id call g) {k l : Nat} {call₁ call₂ : Call}
    {f₁ f₂ : Sight} (at_k : (views.set i (call, g'))[k]? = some (call₁, f₁))
    (at_l : (views.set i (call, g'))[l]? = some (call₂, f₂)) (founder₁ : Founder id call₁ f₁)
    (founder₂ : Founder id call₂ f₂) : k = l := by
  have before {k : Nat} {call' : Call} {f : Sight}
      (at_k : (views.set i (call, g'))[k]? = some (call', f)) (founder : Founder id call' f) :
      ∃ f₀, views[k]? = some (call', f₀) ∧ Founder id call' f₀ := by
    rcases getElem?_set_cases at_k with ⟨rfl, eq⟩ | ⟨ne, old⟩
    · cases eq
      exact ⟨g, view, founds founder⟩
    · exact ⟨f, old, founder⟩
  obtain ⟨f, old, was⟩ := before at_k founder₁
  obtain ⟨f', old', was'⟩ := before at_l founder₂
  exact h.sole k l call₁ call₂ f f' old old' was was'

/-- A call that does not touch the record. -/
theorem Tracked.still (h : Tracked id w views) (view : views[i]? = some (call, g))
    (value : t.value .workflows id = w.value .workflows id)
    (members : ∀ k rec, t.value .jobs k = some rec → rec.workflowID = id →
      w.value .workflows id ≠ none)
    (founds : Founder id call g' ↔ Founder id call g)
    (copied : ∀ r, w.value .workflows id = some r → ∀ r', g'.copy = some (id, r') →
      g.copy = some (id, r') ∨ Kindred r r')
    (same : ∀ r', Holds id call g' r' ↔ Holds id call g r')
    (silent : ∀ r r', w.value .workflows id = some r → r.type ≠ "chain" → Holds id call g r' →
      r'.state = "running" → g'.output = g.output)
    (refused : ∀ r, w.value .workflows id = some r → (reportedJob call).isSome →
      g'.refused = some id → g.refused = some id ∨ r.state ≠ "running") :
    Tracked id t (views.set i (call, g')) := by
  refine ⟨?_, ?_, ?_, ?_, ?_⟩
  · rw [value]
    exact members
  · rw [value]
    intro r stored
    obtain ⟨k, req, f, at_k, founder, meant⟩ := h.founder r stored
    obtain ⟨f', at_k', founder'⟩ := founder_set view founds at_k founder
    exact ⟨k, req, f', at_k', founder', meant⟩
  · exact fun k l call₁ call₂ f₁ f₂ at_k at_l => sole_set h view founds.mp at_k at_l
  · rw [value]
    intro r stored k call' f r' at_k copy
    rcases getElem?_set_cases at_k with ⟨rfl, eq⟩ | ⟨ne, old⟩
    · cases eq
      exact (copied r stored r' copy).elim (h.alike r stored k call g r' view) fun alike => alike
    · exact h.alike r stored k call' f r' old copy
  · rw [value]
    intro r stored plain
    exact (h.tallied r stored plain).still view same
      (fun r' holds running => silent r r' stored plain holds running) (refused r stored)

theorem founder_congr (named : g'.named = g.named) (writes : g'.writes = g.writes) :
    Founder id call g' ↔ Founder id call g := by
  constructor
  · exact fun f => ⟨f.creates, named ▸ f.named, writes ▸ f.wrote⟩
  · exact fun f => ⟨f.creates, named ▸ f.named, writes ▸ f.wrote⟩

theorem holds_congr (copy : g'.copy = g.copy) (writes : g'.writes = g.writes) :
    Holds id call g' r ↔ Holds id call g r := by
  constructor
  · exact fun l => ⟨l.reports, writes ▸ l.wrote, copy ▸ l.copy⟩
  · exact fun l => ⟨l.reports, writes ▸ l.wrote, copy ▸ l.copy⟩

/-- A call that is not about workflows. -/
theorem Tracked.kept (h : Tracked id w views) (view : views[i]? = some (call, g))
    (value : t.value .workflows id = w.value .workflows id)
    (members : ∀ k rec, t.value .jobs k = some rec → rec.workflowID = id →
      w.value .workflows id ≠ none)
    (founds : Founder id call g' ↔ Founder id call g) (writes : g'.writes = g.writes)
    (copy : g'.copy = g.copy)
    (silent : ∀ r r', w.value .workflows id = some r → r.type ≠ "chain" → Holds id call g r' →
      r'.state = "running" → g'.output = g.output)
    (refused : (reportedJob call).isSome → g'.refused = some id → w.value .workflows id ≠ none →
      g.refused = some id) : Tracked id t (views.set i (call, g')) :=
  h.still view value members founds (fun _ _ _ holds => .inl (copy ▸ holds))
    (fun _ => holds_congr copy writes) silent fun r stored reports theirs =>
      .inl (refused reports theirs (by simp [stored]))

/-- A new version of the record. -/
theorem Tracked.write (h : Tracked id w views) (view : views[i]? = some (call, g))
    (stored : w.value .workflows id = some r) (alike : Kindred r v)
    (founds : Founder id call (g.write id v) ↔ Founder id call g)
    (tallied : r.type ≠ "chain" → Tallies id (views.set i (call, g.write id v)) v) :
    Tracked id (w.put .workflows id v) (views.set i (call, g.write id v)) := by
  have value : (w.put .workflows id v).value .workflows id = some v := by
    rw [value_workflows_put, if_pos rfl]
  refine ⟨fun _ _ _ _ => by simp [value], ?_, ?_, ?_, ?_⟩
  · rw [value]
    rintro _ ⟨⟩
    obtain ⟨k, req, f, at_k, founder, meant⟩ := h.founder r stored
    obtain ⟨f', at_k', founder'⟩ := founder_set view founds at_k founder
    exact ⟨k, req, f', at_k', founder', meant.alike alike⟩
  · exact fun k l call₁ call₂ f₁ f₂ at_k at_l => sole_set h view founds.mp at_k at_l
  · rw [value]
    rintro _ ⟨⟩ k call' f r' at_k copy
    rcases getElem?_set_cases at_k with ⟨rfl, eq⟩ | ⟨ne, old⟩
    · cases eq
      cases copy
      exact .refl v
    · exact alike.symm.trans (h.alike r stored k call' f r' old copy)
  · rw [value]
    rintro _ ⟨⟩ plain
    exact tallied fun chain => plain (alike.type.trans chain)

/-- The workflow is created. -/
theorem Tracked.found (h : Tracked id w views) (recorded : Recorded first w log views)
    {req : WorkflowRequest} (view : views[i]? = some (.createWorkflow req, g))
    (missing : w.value .workflows id = none) (named : g.named = some id)
    (progressed : progressOf v = ⟨"running", 0, 0⟩) (meant : Meant req v) :
    Tracked id (w.put .workflows id v) (views.set i (.createWorkflow req, g.write id v)) := by
  have value : (w.put .workflows id v).value .workflows id = some v := by
    rw [value_workflows_put, if_pos rfl]
  have uncopied {k : Nat} {call' : Call} {f : Sight} (at_k : views[k]? = some (call', f))
      (r' : WorkflowState) : f.copy ≠ some (id, r') :=
    fun copy => (recorded.grounded k call' f at_k).copied id r' copy missing
  have founder : Founder id (.createWorkflow req) (g.write id v) :=
    ⟨rfl, named, Nat.succ_ne_zero _⟩
  have only {k : Nat} {call' : Call} {f : Sight}
      (at_k : (views.set i (.createWorkflow req, g.write id v))[k]? = some (call', f))
      (founds : Founder id call' f) : k = i := by
    rcases getElem?_set_cases at_k with ⟨rfl, -⟩ | ⟨ne, old⟩
    · rfl
    · obtain ⟨k', r', named', copy⟩ :=
        (recorded.grounded k call' f old).founder founds.creates founds.wrote
      cases named'.symm.trans founds.named
      exact absurd copy (uncopied old r')
  refine ⟨fun _ _ _ _ => by simp [value], ?_, ?_, ?_, ?_⟩
  · rw [value]
    rintro _ ⟨⟩
    exact ⟨i, req, _, List.getElem?_set_self (List.getElem?_eq_some_iff.mp view).1, founder, meant⟩
  · exact fun k l _ _ _ _ at_k at_l founds founds' =>
      (only at_k founds).trans (only at_l founds').symm
  · rw [value]
    rintro _ ⟨⟩ k call' f r' at_k copy
    rcases getElem?_set_cases at_k with ⟨rfl, eq⟩ | ⟨ne, old⟩
    · cases eq
      cases copy
      exact .refl v
    · exact absurd copy (uncopied old r')
  · rw [value]
    rintro _ ⟨⟩ _
    refine Tallies.fresh progressed (fun k call' f at_k reports => ?_) fun many full => ?_
    · rcases getElem?_set_cases at_k with ⟨rfl, eq⟩ | ⟨ne, old⟩
      · cases eq
        cases reports
      · refine ⟨uncopied old, fun refused => ?_⟩
        obtain ⟨j, same⟩ := Option.isSome_iff_exists.mp reports
        obtain ⟨rec, found, owner⟩ := (recorded.grounded k call' f old).refused j id same refused
        exact h.members j rec found owner missing
    · obtain ⟨-, completed, failed⟩ := Progress.mk.inj progressed
      unfold Full at full
      omega

/-! ## Every call -/

/-- A new job belongs to a workflow that is there. -/
theorem Tracked.members_store (h : Tracked id w views) (nonempty : id ≠ "")
    (ground : Grounded first w call g) {k : String} {v : JobState} (stores : MayRecord call g k v)
    (j : String) (rec : JobState) (found : (w.put .jobs k v).value .jobs j = some rec)
    (owner : rec.workflowID = id) : w.value .workflows id ≠ none := by
  rw [value_jobs_put] at found
  split at found
  · cases found
    rcases stores.2 with ⟨rec, seen, akin, -⟩ | ⟨-, -, -, ⟨creates, named, once, -⟩ | spawns⟩
    · obtain ⟨rec', found, kin⟩ := ground.seen k rec seen
      exact h.members k rec' found ((kin.1.trans akin.1.symm).trans owner)
    · obtain ⟨k', r, named', copy⟩ := ground.founder creates (by omega)
      cases named'.symm.trans named
      exact ground.copied id r (owner ▸ copy)
    · obtain ⟨-, id', r, copy, ⟨own, -⟩ | ⟨free, -⟩⟩ := spawns
      · cases own.symm.trans owner
        exact ground.copied id r copy
      · exact absurd (owner.symm.trans free) nonempty
  · exact h.members j rec found owner

/-- A report that holds the record of a workflow that runs leaves nothing behind. -/
theorem silent_store (h : Tracked id w views) (view : views[i]? = some (call, g)) {k : String}
    {job : JobState} (stores : MayRecord call g k job) {r r' : WorkflowState}
    (stored : w.value .workflows id = some r) (plain : r.type ≠ "chain")
    (holds : Holds id call g r') (running : r'.state = "running") : False := by
  obtain ⟨j, same⟩ := Option.isSome_iff_exists.mp holds.reports
  rcases stores.2 with ⟨rec, -, -, -, own⟩ | ⟨-, -, -, founds | ⟨-, id', r₁, copy, rule⟩⟩
  · exact holds.wrote (own j same).2.2
  · exact founds.unreported j same
  · cases copy.symm.trans holds.copy
    rcases rule with ⟨-, -, chain⟩ | ⟨-, closed⟩
    · exact plain ((h.alike r stored i call g r' view holds.copy).type.symm.trans chain)
    · exact closed running

theorem silent_tell (h : Tracked id w views) (view : views[i]? = some (call, g))
    (tells : MayTell g call) {r r' : WorkflowState} (stored : w.value .workflows id = some r)
    (plain : r.type ≠ "chain") (holds : Holds id call g r') (running : r'.state = "running") :
    False := by
  have rule : g.writes = 0 ∨
      ∃ id r, g.copy = some (id, r) ∧ (r.type = "chain" ∨ r.state ≠ "running") := by
    have reports := holds.reports
    cases call with
    | ack | nack => exact tells
    | _ => cases reports
  rcases rule with first | ⟨id', r₁, copy, chain | closed⟩
  · exact holds.wrote first
  · cases copy.symm.trans holds.copy
    exact plain ((h.alike r stored i call g r' view holds.copy).type.symm.trans chain)
  · cases copy.symm.trans holds.copy
    exact closed running

theorem MayLook.unwritten {k : String} (looks : MayLook g k call)
    (reports : (reportedJob call).isSome) : g.writes = 0 := by
  cases call with
  | ack | nack => exact looks.1
  | _ => cases reports

/-- How a report takes the workflow on, from a record that is up to date. -/
theorem Tracked.further (h : Tracked id w views) (view : views[i]? = some (call, g)) {failed : Bool}
    (kind : call.operation = if failed then .nack else .ack) (reports : (reportedJob call).isSome)
    {r' : WorkflowState} (copy : g.copy = some (id, r')) (running : r'.state = "running")
    (furthers : MayFurther lib failed g r' v) (stored : w.value .workflows id = some r)
    (agrees : progressOf r' = progressOf r) :
    Tracked id (w.put .workflows id v) (views.set i (call, g.write id v)) := by
  have like := h.alike r stored i call g r' view copy
  obtain ⟨state, completed, failing⟩ := progress_eq_iff.mp agrees
  have going : r.state = "running" := state.symm.trans running
  have founds (f : Sight) : ¬ Founder id call f := by
    intro founder
    have creates := founder.creates
    cases failed <;> cases kind.symm.trans creates
  have write (alike : Kindred r' v) (tallied : r.type ≠ "chain" → Tallies id
      (views.set i (call, g.write id v)) v) := h.write view stored (like.trans alike)
    ⟨fun f => absurd f (founds _), fun f => absurd f (founds _)⟩ tallied
  rcases furthers with ⟨chain, alike⟩ | ⟨first, silent, stepIdx, result, rfl⟩ |
    ⟨wrote, full, now, rfl⟩
  · exact write alike.toKindred fun plain => absurd (like.type.symm.trans chain) plain
  · refine write (kindred_counted r' stepIdx result failed) fun plain => ?_
    refine (h.tallied r stored plain).count view kind reports first silent going ?_
    rw [progress_counted, state, completed, failing]
  · refine write ⟨rfl, rfl, rfl⟩ fun plain => ?_
    exact (h.tallied r stored plain).finish view ⟨reports, wrote, copy⟩ full going rfl completed
      failing

theorem Tracked.happens (h : Tracked id w views) (nonempty : id ≠ "")
    (recorded : Recorded first w log views) (view : views[i]? = some (call, g))
    (among : call.operation ∈ counting)
    (abreast : ∀ k ∈ updating? id (.call i call op a), knownProgress k log = storedProgress id w)
    (step : Happens lib call g w op a t g') : Tracked id t (views.set i (call, g')) := by
  have ground := recorded.grounded i call g view
  cases step with
  | aside _ jobs workflows used =>
    refine h.kept view (workflows id) ?_ Iff.rfl rfl rfl (fun _ _ _ _ _ _ => rfl)
      fun _ same _ => same
    intro k rec found
    rw [jobs] at found
    exact h.members k rec found
  | @mint id' fresh unused =>
    refine h.kept view rfl h.members ⟨fun f => ?_, fun f => ?_⟩ rfl rfl (fun _ _ _ _ _ _ => rfl)
      fun _ same _ => same
    · obtain ⟨k, r, named, -⟩ := ground.founder f.creates f.wrote
      have founds := f.named
      rw [Sight.mint, named] at founds
      exact ⟨f.creates, named.trans founds, f.wrote⟩
    · refine ⟨f.creates, ?_, f.wrote⟩
      rw [Sight.mint, f.named]
      rfl
  | find | miss =>
    exact h.kept view rfl h.members (founder_congr rfl rfl) rfl rfl (fun _ _ _ _ _ _ => rfl)
      fun _ same _ => same
  | tell tells =>
    refine h.kept view rfl h.members (founder_congr rfl rfl) rfl rfl ?_ fun _ same _ => same
    exact fun r r' stored plain holds running =>
      (silent_tell h view tells stored plain holds running).elim
  | @store k job rev stores =>
    refine h.kept view (value_workflows_put_jobs w k id job)
      (h.members_store nonempty ground stores) (founder_congr rfl rfl) rfl rfl ?_
      fun _ same _ => same
    exact fun r r' stored plain holds running =>
      (silent_store h view stores stored plain holds running).elim
  | @look k r₀ rev looks found =>
    refine h.still view rfl h.members ⟨fun f => absurd looks (not_mayLook_of_creates f.creates),
      fun f => absurd looks (not_mayLook_of_creates f.creates)⟩ ?_ (fun r' => ⟨fun l => ?_, fun l =>
      ?_⟩) (fun _ _ _ _ _ _ => rfl) ?_
    · rintro r stored r' ⟨⟩
      cases found.symm.trans stored
      exact .inr (.refl _)
    · exact absurd (looks.unwritten l.reports) l.wrote
    · exact absurd (looks.unwritten l.reports) l.wrote
    · intro r stored _ refused
      simp only [Sight.look] at refused
      split at refused
      · exact .inl refused
      · rename_i closed
        cases refused
        cases found.symm.trans stored
        exact .inr closed
  | @overlook k e looks missing =>
    refine h.kept view rfl h.members (founder_congr rfl rfl) rfl rfl (fun _ _ _ _ _ _ => rfl) ?_
    rintro _ ⟨⟩ stored
    exact absurd missing stored
  | @write k v rev writes =>
    by_cases same : k = id
    · subst same
      have informed := abreast i (by simp [updating?])
      unfold knownProgress storedProgress at informed
      rw [recorded.glimpsed.known i call g view] at informed
      have stored {r' : WorkflowState} (copy : g.copy = some (k, r')) :
          ∃ r, w.value .workflows k = some r ∧ progressOf r' = progressOf r := by
        rw [copy, Option.map_some] at informed
        obtain ⟨r, stored, eq⟩ := Option.map_eq_some_iff.mp informed.symm
        exact ⟨r, stored, (Prod.mk.inj eq).2.symm⟩
      cases call with
      | createWorkflow req =>
        obtain ⟨named, ⟨first, blank, now, rfl⟩ | ⟨once, r', ids, copy, rfl, -⟩⟩ := writes
        · have missing : w.value .workflows k = none := by
            rw [blank, Option.map_none] at informed
            exact Option.map_eq_none_iff.mp informed.symm
          exact h.found recorded view missing named rfl ⟨rfl, rfl, rfl⟩
        · obtain ⟨r, stored, agrees⟩ := stored copy
          have founder : Founder k (.createWorkflow req) g := ⟨rfl, named, by omega⟩
          have founds : Founder k (.createWorkflow req) (g.write k { r' with jobIDs := ids }) :=
            ⟨rfl, named, Nat.succ_ne_zero _⟩
          have like := h.alike r stored i _ g r' view copy
          have unreported (f : Sight) (r' : WorkflowState) :
              ¬ Holds k (.createWorkflow req) f r' := fun holds => by cases holds.reports
          refine h.write view stored (like.trans ⟨rfl, rfl, rfl⟩)
            ⟨fun _ => founder, fun _ => founds⟩ fun plain => ?_
          refine ((h.tallied r stored plain).still view ?_ ?_ ?_).congr agrees like.total
          · exact fun r' =>
              ⟨fun l => absurd l (unreported _ r'), fun l => absurd l (unreported _ r')⟩
          · exact fun r' l => absurd l (unreported _ r')
          · rintro ⟨⟩
      | ack =>
        obtain ⟨r', copy, running, furthers⟩ := writes
        obtain ⟨r, stored, agrees⟩ := stored copy
        exact h.further view rfl rfl copy running furthers stored agrees
      | nack =>
        obtain ⟨r', copy, running, furthers⟩ := writes
        obtain ⟨r, stored, agrees⟩ := stored copy
        exact h.further view rfl rfl copy running furthers stored agrees
      | cancelWorkflow => simp [counting, Call.operation] at among
      | _ => exact writes.elim
    · have elsewhere : ¬ id = k := Ne.symm same
      refine h.still view ?_ ?_ ⟨fun f => ?_, fun f => ?_⟩ ?_ (fun r' => ⟨fun l => ?_, fun l => ?_⟩)
        (fun _ _ _ _ _ _ => rfl) fun _ _ _ => .inl
      · rw [value_workflows_put, if_neg elsewhere]
      · intro j rec found
        rw [value_jobs_put_workflows] at found
        exact h.members j rec found
      · exact absurd (Option.some.inj (f.named.symm.trans (writes.named f.creates))) elsewhere
      · exact absurd (Option.some.inj (f.named.symm.trans (writes.named f.creates))) elsewhere
      · rintro r _ r' ⟨⟩
        exact absurd rfl same
      · cases l.copy
        exact absurd rfl same
      · obtain ⟨j, own⟩ := Option.isSome_iff_exists.mp l.reports
        obtain ⟨r₁, copy⟩ := writes.copy own
        cases copy.symm.trans l.copy
        exact absurd rfl same

end Tracked

/-! ## Every run -/

theorem Tracked.begin {id : String} {w : World} {views : List (Call × Sight)}
    (h : Tracked id w views) (call : Call) : Tracked id w (views ++ [(call, ({} : Sight))]) := by
  have old {k : Nat} {call' : Call} {f : Sight}
      (at_k : (views ++ [(call, ({} : Sight))])[k]? = some (call', f))
      (founder : Founder id call' f) : views[k]? = some (call', f) := by
    rcases getElem?_snoc_cases at_k with eq | old
    · cases eq
      exact absurd founder not_founder_idle
    · exact old
  refine ⟨h.members, ?_, ?_, ?_, fun r stored plain => (h.tallied r stored plain).begin call⟩
  · intro r stored
    obtain ⟨k, req, f, at_k, rest⟩ := h.founder r stored
    refine ⟨k, req, f, ?_, rest⟩
    rw [List.getElem?_append_left (List.getElem?_eq_some_iff.mp at_k).1]
    exact at_k
  · exact fun k l call₁ call₂ f₁ f₂ at_k at_l founder₁ founder₂ =>
      h.sole k l call₁ call₂ f₁ f₂ (old at_k founder₁) (old at_l founder₂) founder₁ founder₂
  · intro r stored k call' f r' at_k copy
    rcases getElem?_snoc_cases at_k with eq | old
    · cases eq
      cases copy
    · exact h.alike r stored k call' f r' old copy

theorem Tracked.idle {id : String} {w : World} (linked : Linked w) (nonempty : id ≠ "")
    (unused : id ∉ w.used) : Tracked id w [] := by
  have missing : w.value .workflows id = none := by
    by_contra stored
    obtain ⟨r, stored⟩ := Option.ne_none_iff_exists'.mp stored
    exact unused (linked.known id r stored).1
  refine ⟨?_, ?_, ?_, ?_, ?_⟩
  · rintro k rec found rfl
    have listed := (linked.owned k rec found nonempty).2
    rw [roster, missing] at listed
    cases listed
  · intro r stored
    cases missing.symm.trans stored
  · exact fun k _ _ _ _ _ at_k => by simp at at_k
  · intro r stored
    cases missing.symm.trans stored
  · intro r stored
    cases missing.symm.trans stored

theorem tracked_invariant (lib : Externals) (first : World) {id : String} (nonempty : id ≠ "") :
    Invariant (α := Reply) serves TimePasses (conduct lib) {} (Abreast id)
      fun w log views => Recorded first w log views ∧ Tracked id w views := by
  refine (recorded_invariant lib first (Abreast id)).extend (fun _ _ ok => ok) ?_ ?_ ?_
  · exact fun _ _ call _ _ tracked => tracked.begin call
  · rintro c views _ _ ⟨now, -, rfl⟩ _ tracked
    exact ⟨tracked.members, tracked.founder, tracked.sole, tracked.alike, tracked.tallied⟩
  · intro c views i call op r t g abreast recorded tracked view allowed step
    exact tracked.happens nonempty recorded view abreast.1 abreast.2
      (happens_of_serves allowed step)

/-! ## When all reports have returned -/

/-- Whether the call reports on a job of the workflow. -/
def reportsOn (id : String) (w : World) (call : Call) : Bool :=
  (reportedJob call).any (belongs w id)

/-- The outcome of a report on a job of the workflow, if it has ended the job: whether in
failure. -/
def concluded (id : String) (w : World) : Call × Prog Reply → Option Bool
  | (call, .pure reply) => if reportsOn id w call then ends call reply else none
  | _ => none

/-- How many jobs of the workflow the reports have ended, in failure or not. -/
def outcomes (id : String) (failed : Bool) (c : Server) : Nat :=
  c.threads.countP fun t => decide (concluded id c.state t = some failed)

def HasReplied : Prog Reply → Prop
  | .pure _ => True
  | .call _ _ => False

instance : (p : Prog Reply) → Decidable (HasReplied p)
  | .pure _ => isTrue trivial
  | .call _ _ => isFalse id

/-- The record of the workflow agrees with the outcomes; once all jobs are over, one report
alone has left something behind, the callbacks that are due. -/
structure Reckoned (id : String) (req : WorkflowRequest) (c : Server) (r : WorkflowState) :
    Prop where
  meant : Meant req r
  completed : r.completed = outcomes id false c
  failed : r.failed = outcomes id true c
  going : outcomes id false c + outcomes id true c < req.jobs.length → r.state = "running" ∧
    ∀ k t, c.threads[k]? = some t → (concluded id c.state t).isSome → noted pushes? k c.log = []
  closed : outcomes id false c + outcomes id true c = req.jobs.length →
    r.state = (if 0 < r.failed then "failed" else "completed") ∧
    ∃ i t, c.threads[i]? = some t ∧ (concluded id c.state t).isSome ∧
      Fires (due r) (noted pushes? i c.log) ∧
      ∀ k t', k ≠ i → c.threads[k]? = some t' → (concluded id c.state t').isSome →
        noted pushes? k c.log = []

theorem countP_pointwise {α β : Type*} {p : α → Bool} {q : β → Bool} {xs : List α} {ys : List β}
    (length : xs.length = ys.length)
    (imp : ∀ (i : Nat) x y, xs[i]? = some x → ys[i]? = some y → q y → p x) :
    ys.countP q ≤ xs.countP p ∧ (xs.countP p ≤ ys.countP q →
      ∀ (i : Nat) x y, xs[i]? = some x → ys[i]? = some y → p x → q y) := by
  induction xs generalizing ys with
  | nil =>
    cases ys with
    | nil => exact ⟨Nat.le_refl _, fun _ i x y at_i => by simp at at_i⟩
    | cons y ys => cases length
  | cons x xs ih =>
    cases ys with
    | nil => cases length
    | cons y ys =>
      obtain ⟨le, back⟩ := ih (Nat.succ.inj length) fun i x' y' => imp (i + 1) x' y'
      have here : (if q y then 1 else 0) ≤ if p x then 1 else 0 := by
        by_cases holds : q y
        · simp [holds, imp 0 x y rfl rfl holds]
        · simp [holds]
      simp only [List.countP_cons]
      refine ⟨by omega, fun ge i => ?_⟩
      cases i with
      | zero =>
        rintro _ _ ⟨⟩ ⟨⟩ holds
        by_contra fails
        simp only [holds, fails, ↓reduceIte] at here ge
        omega
      | succ i => exact fun x' y' => back (by omega) i x' y'

section Returned

variable {lib : Externals} {id : String} {first : World} {c : Server}
  {views : List (Call × Sight)} {r : WorkflowState} {k : Nat} {call : Call} {p : Prog Reply}
  {g : Sight}

theorem reportsOn_iff : reportsOn id first call = true ↔ ∃ j, reportedJob call = some j ∧
    ∃ rec, first.value .jobs j = some rec ∧ rec.workflowID = id := by
  unfold reportsOn
  cases reportedJob call with
  | none => simp
  | some j =>
    simp only [Option.any_some, Option.some.injEq, exists_eq_left']
    exact belongs_iff

/-- What a report has seen when it has replied. -/
theorem conducted_reply {reply : Reply} (reports : (reportedJob call).isSome)
    (follows : (conduct lib call).Follows (.pure reply) g (Conducted call)) :
    Reported (ends call reply) g := by
  cases call with
  | ack | nack => exact follows
  | _ => cases reports

theorem operation_of_ends {reply : Reply} {failed : Bool} (ended : ends call reply = some failed) :
    call.operation = if failed then .nack else .ack := by
  unfold ends at ended
  split at ended
  · cases ended
    rfl
  · split at ended
    · cases ended
      rfl
    · cases ended
  · cases ended

/-- A counted report has ended a job of the workflow. -/
theorem concluded_of_counts (recorded : Recorded first c.state c.log views)
    (behaved : Behaved (conduct lib) Conducted c.threads views)
    (returned : ∀ t ∈ c.threads, reportsOn id c.state t.1 → HasReplied t.2)
    (running : c.threads[k]? = some (call, p)) (view : views[k]? = some (call, g))
    (counted : counts id (call, g)) : ∃ failed, concluded id c.state (call, p) = some failed ∧
      call.operation = if failed then .nack else .ack := by
  obtain ⟨r', holds⟩ := counts_iff.mp counted
  obtain ⟨j, same⟩ := Option.isSome_iff_exists.mp holds.reports
  have member : reportsOn id c.state call = true :=
    reportsOn_iff.mpr ⟨j, same, (recorded.grounded k call g view).owner j id r' same holds.copy⟩
  have replied := returned _ (List.mem_of_getElem? running) member
  obtain ⟨g', view', follows⟩ := behaved.getElem? running
  cases view.symm.trans view'
  cases p with
  | call op next => exact replied.elim
  | pure reply =>
    have reported := conducted_reply holds.reports follows
    unfold Reported at reported
    cases ended : ends call reply with
    | none =>
      rw [ended] at reported
      exact absurd reported holds.wrote
    | some failed =>
      refine ⟨failed, ?_, operation_of_ends ended⟩
      simp [concluded, member, ended]

/-- A report that has ended a job of the workflow is counted with the callbacks it owes, or
was told that the workflow is over. -/
theorem counts_of_concluded (nonempty : id ≠ "") (recorded : Recorded first c.state c.log views)
    (behaved : Behaved (conduct lib) Conducted c.threads views)
    (running : c.threads[k]? = some (call, p)) (view : views[k]? = some (call, g))
    (done : (concluded id c.state (call, p)).isSome) : (reportedJob call).isSome ∧
      (g.writes = 0 ∧ g.refused = some id ∨ ∃ r', Holds id call g r' ∧ (r'.type = "chain" ∨
        r'.state = "running" ∧ ¬ Full r' ∨ r'.state ≠ "running" ∧ Fires (due r') g.output)) := by
  have ground := recorded.grounded k call g view
  cases p with
  | call op next => cases done
  | pure reply =>
    by_cases member : reportsOn id c.state call = true
    · obtain ⟨j, same, rec, found, owner⟩ := reportsOn_iff.mp member
      have reports : (reportedJob call).isSome := by rw [same]; rfl
      obtain ⟨g', view', follows⟩ := behaved.getElem? running
      cases view.symm.trans view'
      have reported := conducted_reply reports follows
      simp only [concluded, member, ↓reduceIte] at done
      rw [Reported, if_pos done] at reported
      refine ⟨reports, ?_⟩
      rcases reported with unowned | ⟨unwritten, refused⟩ | ⟨id', r', copy, wrote, state⟩
      · obtain ⟨rec', found', free⟩ := ground.unowned j same unowned
        cases found.symm.trans found'
        exact absurd (owner.symm.trans free) nonempty
      · obtain ⟨k', told⟩ := Option.isSome_iff_exists.mp refused
        obtain ⟨rec', found', owner'⟩ := ground.refused j k' same told
        cases found.symm.trans found'
        exact .inl ⟨unwritten, told.trans (congrArg some (owner'.symm.trans owner))⟩
      · obtain ⟨rec', found', owner'⟩ := ground.owner j id' r' same copy
        cases found.symm.trans found'
        cases owner'.symm.trans owner
        exact .inr ⟨r', ⟨reports, wrote, copy⟩, state⟩
    · simp [concluded, member] at done

/-- Unless a report was told that the workflow is over, exactly the reports that have ended a
job are counted. -/
structure Matched (id : String) (c : Server) (views : List (Call × Sight)) : Prop where
  length : c.threads.length = views.length
  ended : ∀ (k : Nat) (call : Call) (p : Prog Reply) (g : Sight), c.threads[k]? = some (call, p) →
    views[k]? = some (call, g) → counts id (call, g) → ∃ failed,
      concluded id c.state (call, p) = some failed ∧
        call.operation = if failed then .nack else .ack
  counted : ∀ (k : Nat) (call : Call) (p : Prog Reply) (g : Sight), c.threads[k]? = some (call, p) →
    views[k]? = some (call, g) → (concluded id c.state (call, p)).isSome → counts id (call, g)
  labels : ∀ (k : Nat) (t : Call × Prog Reply) (v : Call × Sight), c.threads[k]? = some t →
    views[k]? = some v → v.1 = t.1

theorem Matched.outcomes_eq (h : Matched id c views) (failed : Bool) :
    outcomes id failed c = countedReports id (if failed then .nack else .ack) views := by
  refine Nat.le_antisymm ?_ ?_
  · refine (countP_pointwise h.length.symm fun k v t view running ended => ?_).1
    obtain ⟨call, p⟩ := t
    obtain ⟨call', g⟩ := v
    cases h.labels k (call, p) (call', g) running view
    have ended : concluded id c.state (call, p) = some failed := of_decide_eq_true ended
    have counted := h.counted k call p g running view (by rw [ended]; rfl)
    obtain ⟨failed', same, kind⟩ := h.ended k call p g running view counted
    cases ended.symm.trans same
    simp [kind, counted]
  · refine (countP_pointwise h.length fun k t v running view counted => ?_).1
    obtain ⟨call, p⟩ := t
    obtain ⟨call', g⟩ := v
    cases h.labels k (call, p) (call', g) running view
    simp only [Bool.and_eq_true, decide_eq_true_eq] at counted
    obtain ⟨failed', same, kind⟩ := h.ended k call p g running view counted.2
    rw [counted.1] at kind
    have eq : failed = failed' := by
      cases failed <;> cases failed' <;> first | rfl | cases kind
    simp [same, eq]

theorem countP_split {α : Type*} {p q s : α → Bool} {xs : List α}
    (split : ∀ x, (if p x then 1 else 0) + (if q x then 1 else 0) = if s x then 1 else 0) :
    xs.countP p + xs.countP q = xs.countP s := by
  induction xs with
  | nil => rfl
  | cons x xs ih =>
    have here := split x
    simp only [List.countP_cons]
    omega

theorem countedReports_add : countedReports id .ack views + countedReports id .nack views =
    views.countP (counts id) := by
  refine countP_split fun ⟨call, g⟩ => ?_
  by_cases counted : counts id (call, g)
  · obtain ⟨r, holds⟩ := counts_iff.mp counted
    have reports := holds.reports
    cases call with
    | ack | nack => simp [counted, Call.operation]
    | _ => cases reports
  · simp [counted]

theorem outcomes_add : outcomes id false c + outcomes id true c =
    c.threads.countP fun t => (concluded id c.state t).isSome := by
  refine countP_split fun t => ?_
  cases concluded id c.state t with
  | none => simp
  | some failed => cases failed <;> simp

/-- Where no more reports have ended a job than there are jobs, every one of them is counted. -/
theorem matched_of_tallies (nonempty : id ≠ "") (recorded : Recorded first c.state c.log views)
    (behaved : Behaved (conduct lib) Conducted c.threads views) (tallies : Tallies id views r)
    (returned : ∀ t ∈ c.threads, reportsOn id c.state t.1 → HasReplied t.2)
    (atMost : (outcomes id false c + outcomes id true c : Nat) ≤ r.total) : Matched id c views := by
  have length : c.threads.length = views.length := List.Forall₂.length_eq behaved
  have labels (k : Nat) (t : Call × Prog Reply) (v : Call × Sight)
      (running : c.threads[k]? = some t) (view : views[k]? = some v) : v.1 = t.1 := by
    obtain ⟨call, p⟩ := t
    obtain ⟨g, view', -⟩ := behaved.getElem? running
    cases view.symm.trans view'
    rfl
  have ended (k : Nat) (call : Call) (p : Prog Reply) (g : Sight)
      (running : c.threads[k]? = some (call, p)) (view : views[k]? = some (call, g))
      (counted : counts id (call, g)) := concluded_of_counts recorded behaved returned running view
    counted
  refine ⟨length, ended, fun k call p g running view done => ?_, labels⟩
  obtain ⟨reports, ⟨-, refused⟩ | ⟨r', holds, -⟩⟩ :=
    counts_of_concluded nonempty recorded behaved running view done
  · -- the workflow is over, so that as many reports are counted as there are jobs
    obtain ⟨full, -⟩ := tallies.closed (tallies.refused k call g view reports refused)
    obtain ⟨le, back⟩ := countP_pointwise (p := fun t => (concluded id c.state t).isSome)
      (q := counts id) length fun k t v running view counted => by
        obtain ⟨call, p⟩ := t
        obtain ⟨call', g⟩ := v
        cases labels k (call, p) (call', g) running view
        obtain ⟨failed, same, -⟩ := ended k call p g running view counted
        rw [same]
        rfl
    refine back ?_ k (call, p) (call, g) running view done
    rw [← outcomes_add, ← countedReports_add]
    unfold Full at full
    rw [tallies.completed, tallies.failed] at full
    omega
  · exact counts_iff.mpr ⟨r', holds⟩

theorem due_eq {r' : WorkflowState} (alike : Kindred r r') (failed : r'.failed = r.failed) :
    due r' = due r := by
  unfold due
  rw [alike.type, alike.callbacks, failed]

/-- The record of a workflow whose reports have all returned. -/
theorem reckoned_of_tallies {req : WorkflowRequest} (nonempty : id ≠ "")
    (recorded : Recorded first c.state c.log views)
    (behaved : Behaved (conduct lib) Conducted c.threads views) (tracked : Tracked id c.state views)
    (stored : c.state.value .workflows id = some r) (meant : Meant req r)
    (plain : req.type ≠ "chain") (some_job : req.jobs ≠ [])
    (returned : ∀ t ∈ c.threads, reportsOn id c.state t.1 → HasReplied t.2)
    (atMost : outcomes id false c + outcomes id true c ≤ req.jobs.length) :
    Reckoned id req c r := by
  have unchained : r.type ≠ "chain" := fun chain => plain (meant.type.symm.trans chain)
  have tallies := tracked.tallied r stored unchained
  have total : r.total = req.jobs.length := by
    rw [meant.total, requestedJobs, if_neg plain]
  have matched := matched_of_tallies nonempty recorded behaved tallies returned (by omega)
  have completed : r.completed = outcomes id false c :=
    tallies.completed.trans (congrArg _ (matched.outcomes_eq false).symm)
  have failed : r.failed = outcomes id true c :=
    tallies.failed.trans (congrArg _ (matched.outcomes_eq true).symm)
  have holding {k : Nat} {t : Call × Prog Reply} (running : c.threads[k]? = some t)
      (done : (concluded id c.state t).isSome) : ∃ g r', views[k]? = some (t.1, g) ∧
        Holds id t.1 g r' ∧ noted pushes? k c.log = g.output := by
    obtain ⟨call, p⟩ := t
    obtain ⟨g, view, -⟩ := behaved.getElem? running
    obtain ⟨r', holds⟩ := counts_iff.mp (matched.counted k call p g running view done)
    exact ⟨g, r', view, holds, recorded.pushed.known k call g view⟩
  refine ⟨meant, completed, failed, fun fewer => ?_, fun all => ?_⟩
  · have running : r.state = "running" := by
      by_contra closed
      have full := (tallies.closed closed).1
      unfold Full at full
      omega
    refine ⟨running, fun k t at_k done => ?_⟩
    obtain ⟨g, r', view, holds, output⟩ := holding at_k done
    rw [output]
    exact tallies.silent k t.1 g r' view holds ((tallies.running running).1 k t.1 g r' view holds)
  · have full : Full r := by
      unfold Full
      omega
    have many : 1 ≤ r.total := by
      have := List.length_pos_of_ne_nil some_job
      omega
    obtain ⟨i, call, g, r', view, holds, agrees⟩ := tallies.full many full
    have alike := tracked.alike r stored i call g r' view holds.copy
    obtain ⟨state, completed', failed'⟩ := progress_eq_iff.mp agrees
    obtain ⟨p, at_i⟩ : ∃ p, c.threads[i]? = some (call, p) := by
      have inside := (List.getElem?_eq_some_iff.mp view).1
      obtain ⟨t, at_i⟩ : ∃ t, c.threads[i]? = some t :=
        ⟨_, List.getElem?_eq_getElem (matched.length ▸ inside)⟩
      have same : call = t.1 := matched.labels i t (call, g) at_i view
      exact ⟨t.2, by rw [at_i, same]⟩
    obtain ⟨outcome, same, -⟩ := matched.ended i call p g at_i view (counts_iff.mpr ⟨r', holds⟩)
    have done : (concluded id c.state (call, p)).isSome := by rw [same]; rfl
    -- the report that completed the count has seen the workflow end
    obtain ⟨-, ⟨unwritten, -⟩ | ⟨r₁, holds₁, chain | ⟨-, unfinished⟩ | ⟨closed, fires⟩⟩⟩ :=
      counts_of_concluded nonempty recorded behaved at_i view done
    · exact absurd unwritten holds.wrote
    · cases holds.copy.symm.trans holds₁.copy
      exact absurd (alike.type.symm.trans chain) unchained
    · cases holds.copy.symm.trans holds₁.copy
      refine absurd ?_ unfinished
      unfold Full
      rw [alike.total, completed', failed']
      exact full
    · cases holds.copy.symm.trans holds₁.copy
      refine ⟨(tallies.closed (state ▸ closed)).2, i, (call, p), at_i, done, ?_, ?_⟩
      · rw [recorded.pushed.known i call g view, ← due_eq alike failed']
        exact fires
      · intro k t' other at_k done'
        obtain ⟨f, r₂, view', holds', output⟩ := holding at_k done'
        rw [output]
        by_cases running : r₂.state = "running"
        · exact tallies.silent k t'.1 f r₂ view' holds' running
        · exact absurd (tallies.sole k i t'.1 call f g r₂ r' view' view holds' holds running closed)
            other

end Returned

/-- No outcome is lost: in every interleaving in which no operation writes the record of a
group or batch over progress that it has not seen, the record tells all outcomes once the
reports have returned, and the callbacks are pushed once. -/
theorem reckoned_of_abreast {lib : Externals} {clock : Int} {trace : List Passage} {w : World}
    {c : Server} {id : String} {i : Nat} {req : WorkflowRequest} {wf : Workflow}
    (began : Run lib (World.start clock) trace w)
    (unforged : ∀ p ∈ trace, p.event.Meets Call.Unforged)
    (run : Runs lib (Abreast id) (idle w) c)
    (created : c.threads[i]? = some (.createWorkflow req, .pure (.workflow (.ok wf))))
    (here : wf.id = id)
    (plain : req.type ≠ "chain") (some_job : req.jobs ≠ [])
    (returned : ∀ t ∈ c.threads, reportsOn id c.state t.1 → HasReplied t.2)
    (atMost : outcomes id false c + outcomes id true c ≤ req.jobs.length) :
    ∃ r, c.state.value .workflows id = some r ∧ Reckoned id req c r := by
  subst here
  have sound := began.sound (.start clock)
  have follows (c : Server) (call : Call) (ok : Abreast wf.id c (.start call)) :
      (conduct lib call).Follows (call.program lib) {} (Conducted call) :=
    follows_conduct ((by decide : counting ⊆ conducted) ok.1)
  obtain ⟨unused, nonempty⟩ : wf.id ∉ w.used ∧ wf.id ≠ "" := by
    obtain ⟨views, behaved, recorded⟩ :=
      (recorded_invariant lib w (Abreast wf.id)).holds follows run .nil (.idle sound)
    obtain ⟨g, view, named, -⟩ := behaved.getElem? created
    exact (recorded.grounded i _ g view).named wf.id named
  obtain ⟨views, behaved, recorded, tracked⟩ := (tracked_invariant lib w nonempty).holds follows run
    .nil ⟨.idle sound, .idle (began.linked unforged) nonempty unused⟩
  obtain ⟨g, view, named, wrote⟩ := behaved.getElem? created
  have wrote : g.writes ≠ 0 := by omega
  have ground := recorded.grounded i _ g view
  obtain ⟨id', r', named', copy⟩ := ground.founder rfl wrote
  cases named'.symm.trans named
  obtain ⟨r, stored⟩ := Option.ne_none_iff_exists'.mp (ground.copied wf.id r' copy)
  obtain ⟨k, req', f, view', founder, meant⟩ := tracked.founder r stored
  cases tracked.sole k i _ _ f g view' view founder ⟨rfl, named, wrote⟩
  cases view.symm.trans view'
  exact ⟨r, stored, reckoned_of_tallies nonempty recorded behaved tracked stored meant plain
    some_job returned atMost⟩

/-! ## Two Acks beside the creation -/

/-- Two jobs, with a callback for their end and one for their success. -/
def cheeredMails : WorkflowRequest where
  name := "both"
  type := "batch"
  jobs := [{ name := "first", type := "mail" }, { name := "second", type := "mail" }]
  callbacks := some
    { onComplete := some { type := "report" }, onSuccess := some { type := "cheer" } }

/-- Both jobs are claimed and one Ack has read the record before the creation closes it; the
other Ack reads it once the first one has written. -/
def overlap : List Pick :=
  [.start (.createWorkflow cheeredMails), .calls 0 14, .start (.fetch ["default"] 2 "worker-1" 0),
    .calls 1 60, .start (.ack (pairID 1) none), .start (.ack (pairID 2) none), .calls 2 10,
    .calls 3 8, .calls 0 1, .calls 2 60, .calls 3 60]

def overlapped : Server :=
  played (Abreast (pairID 0)) overlap (idle (World.start (Sample.instant 0)))

theorem reckoned_overlapped : ∃ r, overlapped.state.value .workflows (pairID 0) = some r ∧
    Reckoned (pairID 0) cheeredMails overlapped r ∧ r.state = "completed" := by
  have runs : Runs sample (Abreast (pairID 0)) (idle (World.start (Sample.instant 0))) overlapped :=
    runs_played (by decide)
  have created : overlapped.threads[0]? = some (.createWorkflow cheeredMails, .pure (.workflow (.ok
      (newWorkflow sample (pairID 0) cheeredMails 2 (Sample.instant 0))))) := rfl
  have ended : outcomes (pairID 0) false overlapped = 2 ∧ outcomes (pairID 0) true overlapped = 0 :=
    by decide
  obtain ⟨r, stored, reckoned⟩ := reckoned_of_abreast .nil (by simp) runs created rfl
    (by decide) (by decide) (by decide) (by decide)
  refine ⟨r, stored, reckoned, ?_⟩
  obtain ⟨state, -⟩ := reckoned.closed (by rw [ended.1, ended.2]; rfl)
  rw [state, reckoned.failed, ended.2]
  rfl

end OjsNats.Concurrent
