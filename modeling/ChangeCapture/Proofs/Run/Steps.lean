import ChangeCapture.Proofs.Run.Books
import ChangeCapture.Proofs.Run.Calls

/-!
# What a step of a run does

Every step of a run is looked at once, and all that later proofs have to know about it is said here:
what it adds to the history, what it calls, and what it does to the books, to the place for runs and
to the store.

## Main definitions

* `Host.Act`: all that a step does.

## Main results

* `Host.advance_acts` — every step of a run is such an act.
-/

namespace ChangeCapture

namespace Host

/-- **All that a step of a run does.** -/
structure Act (s : Setup) (r : Nat) (h : Host) (st : RunStatus) (es : List Event) (st' : RunStatus)
    (h' : Host) : Prop where
  adds : h.Adds r es h'
  calls : Calls s h st es st'
  books : Books s r h st es st' h'
  place : Place h st st' h'
  reading : Reading s h st es st'

/-- What is known of a step that was taken. -/
def Acts (s : Setup) (r : Nat) (h : Host) (st : RunStatus) (p : Progress) : Prop :=
  p.Leads fun st' h' => ∃ es, h.Act s r st es st' h'

variable {s : Setup} {r : Nat} {h h' h₁ : Host}

section Shapes

variable {a a' : Active}

/-- A step that goes on with store and connector as they are. -/
theorem Act.goesOn {es : List Event} (adds : h.Adds r es h')
    (calls : Calls s h (.active a) es (.active a'))
    (books : Books s r h (.active a) es (.active a') h') (started : a.stage.isStarted = true)
    (store : h'.store.store = h.store.store)
    (taken : h.lifecycle.isTaken = true → h'.lifecycle.isTaken = true)
    (connector : a'.connector = a.connector)
    (stage : ∀ call request, a'.stage ≠ .resuming call request)
    (resumed : ∀ offsets, .resumed offsets ∉ es) : h.Act s r (.active a) es (.active a') h' where
  adds
  calls
  books
  place.beside hst _ := nomatch hst
  place.taken ht _ _ := taken (ht a rfl)
  place.started _ _ _ := .inl ⟨⟨a, rfl, started⟩, store⟩
  place.kept := .inl store
  reading.connector b hb := .inr ⟨a, rfl, by cases hb; exact connector⟩
  reading.request b call request hb hstage := by cases hb; exact absurd hstage (stage call request)
  reading.resumed offsets hm := absurd hm (resumed offsets)

/-- A step that ends a run. -/
theorem Act.ends {es : List Event} {st : RunStatus} {outcome : RunEnd} (adds : h.Adds r es h')
    (calls : Calls s h st es (.ended outcome)) (books : Books s r h st es (.ended outcome) h')
    (beside : st = .requested → h.lifecycle.isTaken = true → h'.lifecycle.isTaken = true)
    (store : h'.store.store = h.store.store) (resumed : ∀ offsets, .resumed offsets ∉ es) :
    h.Act s r st es (.ended outcome) h' where
  adds
  calls
  books
  place.beside hst ht := ⟨by rintro _ ⟨⟩, beside hst ht⟩
  place.taken _ _ hst := by cases hst
  place.started _ hst := by cases hst
  place.kept := .inl store
  reading.connector _ hst := by cases hst
  reading.request _ _ _ hst := by cases hst
  reading.resumed offsets hm := absurd hm (resumed offsets)

/-- A run breaks off. -/
theorem acts_close (es : List Event) {st : RunStatus} {outcome : RunEnd} (adds : h.Adds r es h₁)
    (hes : es.all Event.isPlain = true) (hres : ∀ offsets, .resumed offsets ∉ es)
    (ho : ∀ result, outcome ≠ .returned result)
    (free : st = .requested → h.lifecycle.isTaken = false) (writes : h₁.writes = h.writes)
    (store : h₁.store.store = h.store.store) : h.Acts s r st (h₁.close r outcome) := by
  refine ⟨es ++ [.ended outcome], .ends ⟨?_, adds.runs, adds.now⟩ (.breaks ho) ?_ ?_ store ?_⟩
  · simp [emit, adds.history, adds.now]
  · refine .ends (by simp [hes, Event.isPlain]) (fun _ _ _ _ => ho) (fun _ _ => ?_) writes
    exact List.mem_append_right _ List.mem_cons_self
  · intro hst ht
    rw [free hst] at ht
    cases ht
  · intro offsets hm
    rcases List.mem_append.mp hm with hm | hm
    · exact hres offsets hm
    · cases List.mem_singleton.mp hm

/-- A run returns. -/
theorem acts_leave (es : List Event) {st : RunStatus} {result : RunResult} (adds : h.Adds r es h₁)
    (calls : Calls s h st (es ++ closing result) (.ended (.returned result)))
    (hes : es.all Event.isPlain = true) (hres : ∀ offsets, .resumed offsets ∉ es)
    (hst : ∀ a n, st = .active a → a.stage.standing ≠ .waiting n)
    (free : st = .requested → h.lifecycle.isTaken = false) (writes : h₁.writes = h.writes)
    (store : h₁.store.store = h.store.store) : h.Acts s r st (h₁.leave r result) := by
  have hplain : (es ++ closing result).all Event.isPlain = true := by
    rw [List.all_append, hes]
    cases result <;> rfl
  have hmem : Event.ended (.returned result) ∈ es ++ closing result :=
    List.mem_append_right _ (by cases result <;> simp [closing])
  have hnone : ∀ offsets, .resumed offsets ∉ es ++ closing result := by
    intro offsets hm
    rcases List.mem_append.mp hm with hm | hm
    · exact hres offsets hm
    · cases result <;> simp [closing] at hm
  have hbooks : ∀ {h' : Host}, h'.writes = h.writes →
      Books s r h st (es ++ closing result) (.ended (.returned result)) h' := fun hw =>
    .ends hplain (fun a n ha hn => absurd hn (hst a n ha)) (fun _ _ => hmem) hw
  have hbeside : ∀ {l : Lifecycle}, st = .requested → h.lifecycle.isTaken = true →
      l.isTaken = true := by
    intro l hst ht
    rw [free hst] at ht
    cases ht
  cases result with
  | error e =>
    refine ⟨_, .ends ⟨?_, adds.runs, adds.now⟩ calls (hbooks writes) hbeside store hnone⟩
    simp [emit, notify, closing, adds.history, adds.now]
  | ok exit =>
    refine ⟨_, .ends ⟨?_, adds.runs, adds.now⟩ calls (hbooks writes) hbeside store hnone⟩
    simp [emit, closing, adds.history, adds.now]

end Shapes

/-! ### On the way in -/

/-- The place is free for a run that starts, and then it has it. -/
theorem isTaken_start? {l l' : Lifecycle} (hl : l.start? = some l') :
    l.isTaken = false ∧ l'.isTaken = true := by
  rw [Lifecycle.start?] at hl
  rw [Lifecycle.isTaken]
  cases hs : l.state <;> simp only [hs, reduceCtorEq, Option.some.injEq] at hl
  all_goals subst hl; exact ⟨rfl, rfl⟩

/-- The first step of a run. -/
theorem begin_acts (s : Setup) (r : Nat) (h : Host) : h.Acts s r .requested (h.begin s r) := by
  rw [begin]
  cases hstart : h.lifecycle.start? with
  | none =>
    have hbooks : Books s r h .requested [] (.ended (.returned (.ok .alreadyRunning))) h :=
      .ends rfl (fun _ _ ha => nomatch ha) (fun _ ha => nomatch ha) rfl
    exact ⟨[], .ends ⟨rfl, rfl, rfl⟩ .turnedAway hbooks (fun _ ht => ht) rfl
      (fun _ hm => nomatch hm)⟩
  | some l =>
    obtain ⟨hfree, htaken⟩ := isTaken_start? hstart
    have hno : ∀ offsets, .resumed offsets ∉ [Event.accepted] := by simp
    dsimp only
    cases hv : s.config.validate with
    | error e =>
      exact acts_leave [.accepted] ⟨rfl, rfl, rfl⟩
        (.fails rfl rfl (.inl ⟨rfl, rfl⟩) (.config hfree hv)) rfl hno
        (fun _ _ ha => nomatch ha) (fun _ => hfree) rfl rfl
    | ok _ =>
      dsimp only
      cases hc : s.registry.create? s.config.connectorClass with
      | none =>
        exact acts_leave [.accepted] ⟨rfl, rfl, rfl⟩
          (.fails rfl rfl (.inl ⟨rfl, rfl⟩) (.unknownClass hfree hv hc)) rfl hno
          (fun _ _ ha => nomatch ha) (fun _ => hfree) rfl rfl
      | some c =>
        have hcalled : ∀ offsets,
            .resumed offsets ∉ [.accepted, .createConnector, Event.startStore] := by
          simp
        simp only [PlannedStore.callStart]
        split
        · exact acts_close [.accepted, .createConnector, .startStore]
            ⟨rfl, rfl, rfl⟩ rfl hcalled nofun
            (fun _ => hfree) rfl rfl
        · refine ⟨[.accepted, .createConnector, .startStore], ⟨rfl, rfl, rfl⟩,
            .works rfl (fun _ => ⟨hv, c, hc⟩) rfl rfl (Nat.le_refl 1) nofun,
              .opens rfl rfl rfl rfl, ?_, ?_⟩
          · constructor
            · intro _ ht
              rw [hfree] at ht
              cases ht
            · rintro - _ ⟨⟩
              exact htaken
            · rintro _ ⟨⟩ ⟨⟩
            · exact .inl rfl
          · constructor
            · rintro _ ⟨⟩
              exact .inl ⟨rfl, hc⟩
            · rintro _ _ _ ⟨⟩ ⟨⟩
            · exact fun offsets hm => absurd hm (hcalled offsets)

/-- Remarks leave the books alone. -/
theorem isPlain_remarks {es : List Event} (h : es.all Event.isRemark = true) :
    es.all Event.isPlain = true := by
  refine List.all_eq_true.mpr ?_
  intro e he
  have := List.all_eq_true.mp h e he
  cases e <;> first | rfl | cases this

/-- Notices are remarks. -/
theorem isRemark_notices (notices : List Notice) :
    (notices.map Event.notice).all Event.isRemark = true := by
  simp [Event.isRemark]

/-- No remark says what a task reads. -/
theorem resumed_not_mem_remarks {es : List Event} (h : es.all Event.isRemark = true)
    (offsets : List (Partition × Offset)) : .resumed offsets ∉ es := fun hm => by
  cases List.all_eq_true.mp h _ hm

section In

variable {a : Active} {call : PendingCall} {properties : Properties}
    {request : List (Partition × Bytes)}

/-- The store's start is waited for. -/
theorem startingStore_acts (ha : a.stage = .startingStore call) :
    h.Acts s r (.active a) (h.startingStore s r a call) := by
  obtain ⟨connector, writer, records, lastCommit, stage⟩ := a
  subst ha
  rw [startingStore]
  split
  · trivial
  · split
    · rename_i e he
      exact acts_leave [] ⟨rfl, rfl, rfl⟩
        (.fails rfl rfl (.inr ⟨nofun, rfl⟩) (.callOfStart rfl he)) rfl
        (fun _ hm => nomatch hm) (by rintro _ _ ⟨⟩ ⟨⟩) (fun hst => nomatch hst) rfl rfl
    · rename_i hnone
      split
      · rename_i e he
        exact acts_leave [] ⟨rfl, rfl, rfl⟩
          (.fails rfl rfl (.inr ⟨nofun, rfl⟩) (.startStore rfl hnone he)) rfl
          (fun _ hm => nomatch hm) (by rintro _ _ ⟨⟩ ⟨⟩) (fun hst => nomatch hst) rfl rfl
      · rename_i store hstore
        have hstart : h.store.store.start = .ok store.store := by
          rw [PlannedStore.start] at hstore
          split at hstore
          · rename_i st hst
            rw [hst, ← Except.ok.inj hstore]
          · cases hstore
        refine ⟨[.storeStarted, .equipConnector s.config.name], ⟨rfl, rfl, rfl⟩,
          .works rfl nofun rfl rfl (Nat.le_refl 1) nofun,
            .keeps rfl rfl nofun (.inl rfl) rfl, ?_, ?_⟩
        · constructor
          · exact fun hst => nomatch hst
          · intro ht _ _
            exact ht _ rfl
          · intro _ _ _
            exact .inr hstart
          · exact .inr ⟨_, _, rfl, rfl, hstart⟩
        · constructor
          · rintro _ ⟨⟩
            exact .inr ⟨_, rfl, rfl⟩
          · rintro _ _ _ ⟨⟩ ⟨⟩
          · simp

/-- The connector starts, or fails to. -/
theorem startingConnector_acts (ha : a.stage = .startingConnector) :
    h.Acts s r (.active a) (h.startingConnector s r a) := by
  obtain ⟨connector, writer, records, lastCommit, stage⟩ := a
  subst ha
  simp only [startingConnector]
  split
  · rename_i e he
    refine ⟨[.startConnector s.config.properties, .notice .connectorNotStarted],
      .goesOn ⟨rfl, rfl, rfl⟩ (.works rfl nofun rfl rfl (Nat.zero_le 1) ?_)
        (.keeps rfl rfl nofun (.inr rfl) rfl) rfl rfl id rfl (by simp) (by simp)⟩
    intro e' he'
    cases he'
    exact .startConnector rfl he
  · exact ⟨[.startConnector s.config.properties],
      .goesOn ⟨rfl, rfl, rfl⟩ (.works rfl nofun rfl rfl (Nat.le_refl 1) nofun)
        (.keeps rfl rfl nofun (.inl rfl) rfl) rfl rfl id rfl (by simp) (by simp)⟩

/-- A task is created, or cannot be. -/
theorem creatingTask_acts (ha : a.stage = .creatingTask) :
    h.Acts s r (.active a) (h.creatingTask s r a) := by
  obtain ⟨connector, writer, records, lastCommit, stage⟩ := a
  subst ha
  simp only [creatingTask]
  split
  · rename_i hc
    refine ⟨[.askTaskConfigs 1],
      .goesOn ⟨rfl, rfl, rfl⟩ (.works rfl nofun rfl rfl (Nat.zero_le 1) ?_)
        (.keeps rfl rfl nofun (.inr rfl) rfl) rfl rfl id rfl (by simp) (by simp)⟩
    intro e' he'
    cases he'
    exact .noTaskConfig rfl hc
  · rename_i properties rest hc
    split
    · rename_i e he
      refine ⟨[.askTaskConfigs 1, .createTask],
        .goesOn ⟨rfl, rfl, rfl⟩ (.works rfl nofun rfl rfl (Nat.le_refl 1) ?_)
          (.keeps rfl rfl nofun (.inr rfl) rfl) rfl rfl id rfl (by simp) (by simp)⟩
      intro e' he'
      cases he'
      exact .createTask rfl (by rw [hc]; exact List.cons_ne_nil _ _) he
    · exact ⟨[.askTaskConfigs 1, .createTask, .equipTask],
        .goesOn ⟨rfl, rfl, rfl⟩ (.works rfl nofun rfl rfl (Nat.le_refl 1) nofun)
          (.keeps rfl rfl nofun (.inl rfl) rfl) rfl rfl id rfl (by simp) (by simp)⟩

/-- A task starts, or fails to, or asks for committed offsets first. -/
theorem startingTask_acts (ha : a.stage = .startingTask properties) :
    h.Acts s r (.active a) (h.startingTask s r a properties) := by
  obtain ⟨connector, writer, records, lastCommit, stage⟩ := a
  subst ha
  simp only [startingTask]
  split
  · rename_i e he
    refine ⟨[.startTask properties, .notice .taskNotStarted],
      .goesOn ⟨rfl, rfl, rfl⟩ (.works rfl nofun rfl rfl (Nat.le_refl 0) ?_)
        (.keeps rfl rfl nofun (.inr rfl) rfl) rfl rfl id rfl nofun (by simp)⟩
    intro e' he'
    cases he'
    exact .startTask rfl he
  · exact ⟨[.startTask properties, .loopBegun],
      .goesOn ⟨rfl, rfl, rfl⟩ (.works rfl nofun rfl rfl (Nat.le_refl 0) nofun)
        (.keeps rfl rfl nofun (.inl rfl) rfl) rfl rfl id rfl nofun (by simp)⟩
  · rename_i ps hstart hps
    split
    · rename_i e he
      refine ⟨[.startTask properties, .notice .taskNotStarted],
        .goesOn ⟨rfl, rfl, rfl⟩ (.works rfl nofun rfl rfl (Nat.le_refl 0) ?_)
          (.keeps rfl rfl nofun (.inr rfl) rfl) rfl rfl id rfl nofun (by simp)⟩
      intro e' he'
      cases he'
      exact .keysToResume rfl hstart hps he
    · rename_i keys hkeys
      simp only [PlannedStore.callGet]
      split
      · exact acts_close [.startTask properties, .getFromStore keys] ⟨rfl, rfl, rfl⟩ rfl
          (by simp) nofun
          (fun hst => nomatch hst) rfl rfl
      · refine ⟨[.startTask properties, .getFromStore keys], ⟨rfl, rfl, rfl⟩,
          .works rfl nofun rfl rfl (Nat.le_refl 0) nofun,
            .keeps rfl rfl nofun (.inl rfl) rfl, ?_, ?_⟩
        · constructor
          · exact fun hst => nomatch hst
          · exact fun ht _ _ => ht _ rfl
          · exact fun _ _ _ => .inl ⟨⟨_, rfl, rfl⟩, rfl⟩
          · exact .inl rfl
        · constructor
          · rintro _ ⟨⟩
            exact .inr ⟨_, rfl, rfl⟩
          · rintro _ _ _ ⟨⟩ ⟨⟩
            exact ⟨ps, keys, hps, hkeys, rfl⟩
          · simp

/-- The committed offsets are waited for, and given to the task. -/
theorem resuming_acts (ha : a.stage = .resuming call request) :
    h.Acts s r (.active a) (h.resuming s r a call request) := by
  obtain ⟨connector, writer, records, lastCommit, stage⟩ := a
  subst ha
  rw [resuming]
  split
  · trivial
  · split
    · rename_i e he
      refine ⟨[.notice .taskNotStarted],
        .goesOn ⟨rfl, rfl, rfl⟩ (.works rfl nofun rfl rfl (Nat.le_refl 0) ?_)
          (.keeps rfl rfl nofun (.inr rfl) rfl) rfl rfl id rfl nofun (by simp)⟩
      intro e' he'
      cases he'
      exact .callOfGet rfl he
    · dsimp only
      generalize hfound : s.offsetFormat.collect
        (h.store.store.get (request.map Prod.snd)) request = found
      have hremarks := isRemark_notices found.notices
      have hadds : h.Adds r [] h := ⟨rfl, rfl, rfl⟩
      refine ⟨_, ((hadds.emitAll _).emit _).emit _, ?_, ?_, ?_, ?_⟩
      · rw [List.nil_append, List.append_assoc]
        exact .works_of_remarks hremarks rfl nofun rfl rfl (Nat.le_refl 0) nofun
      · rw [List.nil_append, List.append_assoc, emitAll_eq]
        exact .keeps (by rw [List.all_append, isPlain_remarks hremarks]; rfl) rfl nofun
          (.inl rfl) rfl
      · rw [emitAll_eq]
        constructor
        · exact fun hst => nomatch hst
        · exact fun ht _ _ => ht _ rfl
        · exact fun _ _ _ => .inl ⟨⟨_, rfl, rfl⟩, rfl⟩
        · exact .inl rfl
      · constructor
        · rintro _ ⟨⟩
          exact .inr ⟨_, rfl, rfl⟩
        · rintro _ _ _ ⟨⟩ ⟨⟩
        · intro offsets hm
          rw [List.nil_append, List.append_assoc] at hm
          rcases List.mem_append.mp hm with hm | hm
          · exact absurd hm (resumed_not_mem_remarks hremarks offsets)
          · obtain rfl : offsets = found.offsets := by simpa using hm
            exact ⟨_, call, request, rfl, rfl, by rw [hfound]⟩

end In

/-! ### In the loop -/

section Loop

variable {a : Active}

/-- The top of the loop. -/
theorem looping_acts (ha : a.stage = .looping) : h.Acts s r (.active a) (h.looping r a) := by
  obtain ⟨connector, writer, records, lastCommit, stage⟩ := a
  subst ha
  rw [looping]
  split
  · exact ⟨[.interruptCleared],
      .goesOn ⟨rfl, rfl, rfl⟩ (.works rfl nofun rfl rfl (Nat.le_refl 0) nofun)
        (.keeps rfl rfl nofun (.inl rfl) rfl) rfl rfl id rfl nofun (by simp)⟩
  · split
    · exact ⟨[.poll],
        .goesOn ⟨rfl, rfl, rfl⟩ (.works rfl nofun rfl rfl (Nat.le_refl 0) nofun)
          (.keeps rfl rfl nofun (.inl rfl) rfl) rfl rfl id rfl nofun (by simp)⟩
    · exact ⟨[],
        .goesOn ⟨rfl, rfl, rfl⟩ (.works rfl nofun rfl rfl (Nat.le_refl 0) nofun)
          (.keeps rfl rfl nofun (.inr rfl) rfl) rfl rfl id rfl nofun (by simp)⟩

/-- A poll is waited for, and what it gave is looked at. -/
theorem polling_acts (ha : a.stage = .polling) : h.Acts s r (.active a) (h.polling r a) := by
  obtain ⟨connector, writer, records, lastCommit, stage⟩ := a
  subst ha
  rw [polling]
  split
  · exact ⟨[.interruptCleared],
      .goesOn ⟨rfl, rfl, rfl⟩ (.works rfl nofun rfl rfl (Nat.le_refl 0) nofun)
        (.keeps rfl rfl nofun (.inl rfl) rfl) rfl rfl id rfl nofun (by simp)⟩
  · rename_i hint
    split
    · trivial
    · rename_i result feed hfeed
      have nothing : h.Acts s r
          (.active { connector, writer, records, lastCommit, stage := .polling })
          (.goesOn { connector, writer, records, lastCommit, stage := .looping }
            ({ h with feed }.emit r (.polled result))) :=
        ⟨[.polled result],
          .goesOn ⟨rfl, rfl, rfl⟩ (.works rfl nofun rfl rfl (Nat.le_refl 0) nofun)
            (.keeps rfl rfl nofun (.inl rfl) rfl) rfl rfl id rfl nofun (by simp)⟩
      match result with
      | .nothing | .batch [] => exact nothing
      | .batch (x :: xs) =>
        have hlast : batchPosition? (x :: xs) =
            some (((x :: xs).getLast (List.cons_ne_nil x xs)).partition,
              ((x :: xs).getLast (List.cons_ne_nil x xs)).offset) := by
          rw [batchPosition?, List.getLast?_eq_some_getLast (List.cons_ne_nil x xs)]
          rfl
        exact ⟨[.polled (.batch (x :: xs))],
          .goesOn ⟨rfl, rfl, rfl⟩ (.works rfl nofun rfl rfl (Nat.le_refl 0) nofun)
            (.receives rfl hlast rfl rfl rfl rfl) rfl rfl id rfl nofun (by simp)⟩
      | .fails .interrupted =>
        exact ⟨[.polled (.fails .interrupted), .interruptCleared],
          .goesOn ⟨rfl, rfl, rfl⟩ (.works rfl nofun rfl rfl (Nat.le_refl 0) nofun)
            (.keeps rfl rfl nofun (.inl rfl) rfl) rfl rfl id rfl nofun (by simp)⟩
      | .fails (.noTaskConfig c) | .fails (.offset e) | .fails (.failed e) =>
        refine ⟨[.polled (.fails _)],
          .goesOn ⟨rfl, rfl, rfl⟩ (.works rfl nofun rfl rfl (Nat.le_refl 0) ?_)
            (.keeps rfl rfl nofun (.inr rfl) rfl) rfl rfl id rfl nofun (by simp)⟩
        intro e' he'
        cases he'
        exact .poll rfl (by simpa using hint) hfeed nofun
      | .panics =>
        exact acts_close [.polled .panics] ⟨rfl, rfl, rfl⟩ rfl (by simp) nofun
          (fun hst => nomatch hst) rfl rfl

/-- What a consumer asks for changes the lifecycle and is noted. -/
theorem control_eq (r : Nat) (c : Control) (h : Host) :
    ∃ l granted, h.control r c = { h with lifecycle := l }.emit r (.controlled c granted) := by
  cases c with
  | stop => exact ⟨_, _, rfl⟩
  | interrupt => exact ⟨_, _, rfl⟩

/-- A consumer that asks something leaves the run its place. -/
theorem isTaken_control (r : Nat) (c : Control) :
    (h.control r c).lifecycle.isTaken = h.lifecycle.isTaken := by
  cases c with
  | stop =>
    change (h.lifecycle.stop?.getD h.lifecycle).isTaken = _
    rw [Lifecycle.stop?]
    split
    · rename_i hs
      rw [Lifecycle.isTaken, Lifecycle.isTaken, hs]
      rfl
    all_goals rfl
  | interrupt =>
    change (h.lifecycle.interrupt?.getD h.lifecycle).isTaken = _
    rw [Lifecycle.interrupt?]
    split
    · rfl
    · rfl

/-- What a consumer asks of its run are remarks. -/
theorem Adds.foldl_control {es : List Event} (ha : h.Adds r es h₁) (asks : List Control) :
    ∃ remarks, h.Adds r (es ++ remarks) (asks.foldl (fun h c => h.control r c) h₁) ∧
      remarks.all Event.isRemark = true ∧
      (asks.foldl (fun h c => h.control r c) h₁).writes = h₁.writes ∧
      (asks.foldl (fun h c => h.control r c) h₁).store = h₁.store ∧
      (h₁.lifecycle.isTaken = true →
        (asks.foldl (fun h c => h.control r c) h₁).lifecycle.isTaken = true) := by
  induction asks generalizing h₁ es with
  | nil => exact ⟨[], by rwa [List.append_nil], rfl, rfl, rfl, id⟩
  | cons c asks ih =>
    obtain ⟨granted, hstep⟩ : ∃ granted,
        h.Adds r (es ++ [.controlled c granted]) (h₁.control r c) := by
      obtain ⟨l, granted, heq⟩ := control_eq r c h₁
      have hl : h.Adds r es { h₁ with lifecycle := l } := ⟨ha.history, ha.runs, ha.now⟩
      exact ⟨granted, heq ▸ hl.emit _⟩
    obtain ⟨remarks, hadds, hremarks, hwrites, hstore, htaken⟩ := ih hstep
    refine ⟨.controlled c granted :: remarks, ?_, hremarks, hwrites, hstore,
      fun ht => htaken ((isTaken_control r c).trans ht)⟩
    rwa [List.append_assoc, List.singleton_append] at hadds

/-- A record is delivered, or the last one was. -/
theorem delivering_acts {rest batch : List Record} (ha : a.stage = .delivering rest batch) :
    h.Acts s r (.active a) (h.delivering s r a rest batch) := by
  obtain ⟨connector, writer, records, lastCommit, stage⟩ := a
  subst ha
  cases rest with
  | nil =>
    exact ⟨[.delivered batch],
      .goesOn ⟨rfl, rfl, rfl⟩ (.works rfl nofun rfl rfl (Nat.le_refl 0) nofun)
        (.delivers rfl rfl rfl rfl) rfl
        rfl id rfl nofun (by simp)⟩
  | cons x rest =>
    rw [delivering]
    dsimp only
    have hdeliver : h.Adds r [.deliver x]
        ({ h with deliveries := h.deliveries + 1 }.emit r (.deliver x)) :=
      ⟨rfl, rfl, rfl⟩
    obtain ⟨remarks, hadds, hremarks, hwrites, hstore, htaken⟩ :=
      hdeliver.foldl_control (s.consumer h.deliveries).asks
    generalize (s.consumer h.deliveries).asks.foldl (fun (h : Host) c => h.control r c)
      ({ h with deliveries := h.deliveries + 1 }.emit r (.deliver x)) = h₂ at *
    have hes : ([Event.deliver x] ++ remarks).all Event.isRemark = true := by
      rw [List.all_append, hremarks]
      rfl
    split
    · have htaken' :
          ([Event.deliver x] ++ remarks ++ [Event.taken x]).all Event.isRemark = true := by
        rw [List.all_append, hes]
        rfl
      have hmem : Event.taken x ∈ [Event.deliver x] ++ remarks ++ [Event.taken x] :=
        List.mem_append_right _ List.mem_cons_self
      exact ⟨_, .goesOn (hadds.emit _) (.idles htaken' rfl nofun rfl (Nat.le_refl 0) nofun)
        (.hands (isPlain_remarks htaken') hmem rfl rfl rfl hwrites) rfl
        (congrArg PlannedStore.store hstore) htaken rfl nofun (resumed_not_mem_remarks htaken')⟩
    · rename_i report hverdict
      refine ⟨_, .goesOn hadds (.idles hes rfl nofun rfl (Nat.le_refl 0) ?_)
        (.keeps (isPlain_remarks hes) rfl nofun (.inr rfl) hwrites) rfl
        (congrArg PlannedStore.store hstore) htaken rfl nofun (resumed_not_mem_remarks hes)⟩
      intro e he
      cases he
      exact .delivery rfl hverdict
    · exact acts_close _ hadds (isPlain_remarks hes) (resumed_not_mem_remarks hes) nofun
        (fun hst => nomatch hst) hwrites (congrArg PlannedStore.store hstore)

end Loop

/-! ### Committing -/

/-- A failure that is counted is nothing that happens. -/
theorem Adds.countFailure {es : List Event} (ha : h.Adds r es h₁) : h.Adds r es h₁.countFailure :=
  ⟨ha.history, ha.runs, ha.now⟩

section Commit

variable {a a₁ : Active} {final : Bool}

/-- After a commit the books are at rest. -/
theorem isRest_afterCommit (a : Active) (final : Bool) :
    (afterCommit a final).stage.standing.isRest = true := by
  cases final <;> rfl

/-- A run goes back to its loop, or on its way out, after a commit or after none. -/
theorem acts_afterCommit (es : List Event) (hwork : es.all Event.isWork = true)
    (hnone : heldBy es = []) (hcreate : creations es = 0) (hread : ∀ offsets, .resumed offsets ∉ es)
    (hheld : a.stage.holding = [.task, .connector, .store]) (hres : a.stage.result? = none)
    (adds : h.Adds r es h₁) (books : Books s r h (.active a) es (.active (afterCommit a₁ final)) h₁)
    (store : h₁.store.store = h.store.store)
    (taken : h.lifecycle.isTaken = true → h₁.lifecycle.isTaken = true)
    (connector : a₁.connector = a.connector) :
    h.Acts s r (.active a) (.goesOn (afterCommit a₁ final) h₁) := by
  have hstart : a.stage.isStarted = true := by
    cases hs : a.stage <;> rw [hs] at hheld <;> first | rfl | cases hheld
  refine ⟨es,
    .goesOn adds (.works hres nofun hwork ?_ ?_ ?_) books hstart store taken connector ?_ hread⟩
  · rw [RunStatus.holding, hheld, hnone]
    cases final <;> rfl
  · rw [hcreate]
    cases final <;> exact Nat.zero_le _
  · cases final <;> nofun
  · cases final <;> nofun

/-- A run goes on after no commit. -/
theorem acts_afterNone {es : List Event} (hes : es.all Event.isRemark = true)
    (hheld : a.stage.holding = [.task, .connector, .store]) (hres : a.stage.result? = none)
    (adds : h.Adds r es h₁) (books : Books s r h (.active a) es (.active (afterCommit a₁ final)) h₁)
    (store : h₁.store.store = h.store.store)
    (taken : h.lifecycle.isTaken = true → h₁.lifecycle.isTaken = true)
    (connector : a₁.connector = a.connector) :
    h.Acts s r (.active a) (.goesOn (afterCommit a₁ final) h₁) :=
  acts_afterCommit es (isWork_remarks hes) (heldBy_remarks hes) (creations_remarks hes)
    (resumed_not_mem_remarks hes) hheld hres adds books store taken connector

/-- A snapshot is handed to the background, or cannot be. -/
theorem submit_acts {es : List Event} {w : OffsetWriter} {deadline : Nat}
    (ha : a.stage = .consulting final)
    (hb : a.writer.beginFlush = .ok (some w)) (hes : es.all Event.isRemark = true)
    (adds : h.Adds r es h₁) (writes : h₁.writes = h.writes) (store : h₁.store.store = h.store.store)
    (taken : h.lifecycle.isTaken = true → h₁.lifecycle.isTaken = true) :
    h.Acts s r (.active a) (h₁.submit r { a with writer := w } final deadline) := by
  obtain ⟨connector, writer, records, lastCommit, stage⟩ := a
  subst ha
  rw [submit]
  cases hs : w.submit with
  | mk submission w' =>
    cases submission with
    | nothing =>
      exact acts_afterNone hes rfl rfl adds
        (.refuses (isPlain_remarks hes) hb (by rw [hs]; rfl) (by rw [hs]; nofun) rfl
          (isRest_afterCommit _ _) writes) store taken rfl
    | refused e =>
      have hes' : (es ++ [.notice .snapshotUnwritable, .notice .writeFailed,
          Event.notice .flushNotSubmitted]).all Event.isRemark = true := by
        rw [List.all_append, hes]
        rfl
      have hadds := (adds.emitAll [.notice .snapshotUnwritable, .notice .writeFailed,
        .notice .flushNotSubmitted]).countFailure
      exact acts_afterNone hes' rfl rfl hadds
        (.refuses (isPlain_remarks hes') hb (by rw [hs]; rfl) (by rw [hs]; nofun) rfl
          (isRest_afterCommit _ _) writes) store taken rfl
    | submitted flushId entries =>
      have hadds : h.Adds r (es ++ [.submitted h.writes.length entries])
          ((h₁.startWrite { run := r, flushId, entries }).emit r
            (.submitted h₁.writes.length entries)) := by
        have hstart : h.Adds r es (h₁.startWrite { run := r, flushId, entries }) :=
          ⟨adds.history, adds.runs, adds.now⟩
        rw [← writes]
        exact hstart.emit _
      refine ⟨_, .goesOn hadds
        (.works_of_remarks hes rfl nofun rfl rfl (Nat.le_refl 0) nofun)
        (.submits (isPlain_remarks hes) hb hs rfl ?_ ?_) rfl store taken rfl nofun ?_⟩
      · rw [← writes]
        rfl
      · rw [← writes]
        rfl
      · intro offsets hm
        rcases List.mem_append.mp hm with hm | hm
        · exact resumed_not_mem_remarks hes offsets hm
        · cases List.mem_singleton.mp hm

/-- The policy is consulted. -/
theorem consulting_acts (ha : a.stage = .consulting final) :
    h.Acts s r (.active a) (h.consulting s r a final) := by
  rw [consulting]
  generalize hp : (s.policy.probes a.records (h.now - a.lastCommit)).map
    (fun p => Event.probed p.1 p.2) = probes
  generalize s.policy.fires a.records (h.now - a.lastCommit) = fired
  have hprobes : probes.all Event.isRemark = true := by
    rw [← hp]
    simp [Event.isRemark]
  have hes : ([] ++ probes ++
      [Event.consulted a.records (h.now - a.lastCommit) fired]).all Event.isRemark = true := by
    rw [List.all_append, List.nil_append, hprobes]
    rfl
  have hnothing : h.Adds r [] h := ⟨rfl, rfl, rfl⟩
  have hadds := (hnothing.emitAll probes).emit (.consulted a.records (h.now - a.lastCommit) fired)
  have hrest : ∀ {es h₁}, es.all Event.isPlain = true → h₁.writes = h.writes →
      Books s r h (.active a) es (.active (afterCommit a final)) h₁ := by
    intro es h₁ hes hw
    refine .keeps hes rfl (by rw [ha]; nofun) ?_ hw
    rw [ha]
    cases final
    · exact .inl rfl
    · exact .inr rfl
  have hheld : a.stage.holding = [.task, .connector, .store] := by rw [ha]; rfl
  have hres : a.stage.result? = none := by rw [ha]; rfl
  rw [emitAll_eq] at hadds ⊢
  split
  · rw [flush]
    split
    · have hes' : ([] ++ probes ++ [Event.consulted a.records (h.now - a.lastCommit) fired] ++
          [Event.notice .snapshotOutstanding, .notice .flushNotBegun]).all Event.isRemark =
            true := by
        rw [List.all_append, hes]
        rfl
      exact acts_afterNone hes' hheld hres (hadds.emitAll _).countFailure
        (hrest (isPlain_remarks hes') rfl)
        rfl id rfl
    · exact acts_afterNone hes hheld hres hadds (hrest (isPlain_remarks hes) rfl) rfl id rfl
    · rename_i w hb
      exact submit_acts ha hb hes hadds rfl rfl id
  · exact acts_afterNone hes hheld hres hadds (hrest (isPlain_remarks hes) rfl) rfl id rfl

/-- A flush is given up. -/
theorem giveUp_acts {number deadline : Nat} {why : Notice}
    (ha : a.stage = .flushing number deadline final) :
    h.Acts s r (.active a) (h.giveUp r a number final why) := by
  obtain ⟨connector, writer, records, lastCommit, stage⟩ := a
  subst ha
  have hadds : h.Adds r ([] ++ [.notice why] ++ [.givenUp number])
      ((({ h with writes := h.writes.modify number Write.cancel }.notify r why).emit r
        (.givenUp number)).countFailure) := by
    have hcancel : h.Adds r [] { h with writes := h.writes.modify number Write.cancel } :=
      ⟨rfl, rfl, rfl⟩
    exact ((hcancel.emit _).emit _).countFailure
  exact acts_afterNone rfl rfl rfl hadds
    (.givesUp rfl rfl rfl (isRest_afterCommit _ _) rfl) rfl id rfl

/-- A flush is confirmed. -/
theorem commit_acts {number deadline : Nat} {write : Write}
    (ha : a.stage = .flushing number deadline final)
    (hn : h.writes[number]? = some write) (hok : write.status = .finished none) :
    h.Acts s r (.active a) (h.commit r a number write.flushId final) := by
  obtain ⟨connector, writer, records, lastCommit, stage⟩ := a
  subst ha
  rw [commit]
  dsimp only
  split
  · rename_i w hw
    exact acts_afterCommit [.committed number] rfl rfl rfl (by simp) rfl rfl ⟨rfl, rfl, rfl⟩
      (.commits [] rfl hn hok (by rw [hw]; rfl) rfl (isRest_afterCommit _ _) rfl) rfl id rfl
  · rename_i hw
    exact acts_afterCommit [.notice .staleCompletion, .committed number] rfl rfl rfl
      (by simp) rfl rfl
      ⟨rfl, rfl, rfl⟩
      (.commits [.notice .staleCompletion] rfl hn hok (by rw [hw]; rfl) rfl
        (isRest_afterCommit _ _) rfl)
      rfl id rfl

/-- A flush is waited for. -/
theorem flushing_acts {number deadline : Nat} (ha : a.stage = .flushing number deadline final) :
    h.Acts s r (.active a) (h.flushing r a number deadline final) := by
  rw [flushing]
  split
  · exact giveUp_acts ha
  · split
    · exact giveUp_acts ha
    · rename_i write hn
      split
      · rename_i hresult
        have hok : write.status = .finished none := by
          rw [Write.result?] at hresult
          split at hresult
          · rename_i hs
            rw [hs, Option.some.inj hresult]
          all_goals cases hresult
        exact commit_acts ha hn hok
      · exact giveUp_acts ha
      · split
        · exact giveUp_acts ha
        · trivial

end Commit

/-! ### On the way out -/

/-- A hook on the way out. -/
theorem acts_releases {a a' : Active} {x : Held} (ha : a.stage.result? ≠ none)
    (hres : a'.stage.result? = a.stage.result?) (hheld : a.stage.holding = x :: a'.stage.holding)
    (hstanding : a.stage.standing = .closed) (hstanding' : a'.stage.standing = .closed)
    (hw : a'.writer = a.writer) (hstart : a.stage.isStarted = true)
    (hconn : a'.connector = a.connector) :
    h.Acts s r (.active a) (.goesOn a' (h.emit r x.release)) := by
  refine ⟨[x.release], .goesOn ⟨rfl, rfl, rfl⟩ (.releases ha hres hheld)
    (.keeps ?_ hw (by rw [hstanding]; nofun) (.inr hstanding') rfl) hstart rfl id hconn ?_ ?_⟩
  · cases x <;> rfl
  · intro call request hs
    rw [hs] at hres
    exact ha hres.symm
  · cases x <;> simp [Held.release]

/-- The last step of a run. -/
theorem leaving_acts {a : Active} {result : RunResult} (ha : a.stage = .leaving result) :
    h.Acts s r (.active a) (h.leave r result) := by
  refine acts_leave [] ⟨rfl, rfl, rfl⟩ (.leaves ha) rfl (fun _ hm => nomatch hm) ?_
    (fun hst => nomatch hst) rfl rfl
  intro a' n ha'
  cases ha'
  rw [ha]
  nofun

/-- A run that is dropped. -/
theorem dropRun_acts (s : Setup) (r : Nat) (h : Host) (st : RunStatus) :
    h.Acts s r st (h.dropRun r st) := by
  cases st with
  | requested =>
    exact ⟨[], .ends ⟨rfl, rfl, rfl⟩ (.breaks nofun)
      (.ends rfl (fun _ _ ha => nomatch ha) (fun _ ha => nomatch ha) rfl)
      (fun _ ht => ht) rfl (fun _ hm => nomatch hm)⟩
  | active a =>
    exact acts_close [] ⟨rfl, rfl, rfl⟩ rfl (fun _ hm => nomatch hm) nofun
      (fun hst => nomatch hst) rfl rfl
  | ended outcome => trivial

/-! ### Every step -/

/-- **What the step of an accepted run does.** -/
theorem step_acts (s : Setup) (r : Nat) (a : Active) (h : Host) :
    h.Acts s r (.active a) (h.step s r a) := by
  rw [step]
  split
  next ha => exact startingStore_acts ha
  next ha => exact startingConnector_acts ha
  next ha => exact creatingTask_acts ha
  next ha => exact startingTask_acts ha
  next ha => exact resuming_acts ha
  next ha => exact looping_acts ha
  next ha => exact polling_acts ha
  next ha => exact delivering_acts ha
  next ha => exact consulting_acts ha
  next ha => exact flushing_acts ha
  next ha =>
    exact acts_releases (x := .task) (by rw [ha]; nofun) (by rw [ha]; rfl) (by rw [ha]; rfl)
      (by rw [ha]; rfl)
      rfl rfl (by rw [ha]; rfl) rfl
  next ha =>
    exact acts_releases (x := .connector) (by rw [ha]; nofun) (by rw [ha]; rfl) (by rw [ha]; rfl)
      (by rw [ha]; rfl)
      rfl rfl (by rw [ha]; rfl) rfl
  next ha =>
    exact acts_releases (x := .store) (by rw [ha]; nofun) (by rw [ha]; rfl) (by rw [ha]; rfl)
      (by rw [ha]; rfl)
      rfl rfl (by rw [ha]; rfl) rfl
  next ha => exact leaving_acts ha

/-- A run that is over takes no step. -/
theorem status?_ne_ended (hadv : h.advance s r = some h') (outcome : RunEnd) :
    h.status? r ≠ some (.ended outcome) := by
  intro hst
  rw [advance] at hadv
  cases hrun : h.runs[r]? with
  | none => simp [hrun] at hadv
  | some run =>
    rw [status?, hrun, Option.map_some, Option.some.injEq] at hst
    rw [hrun] at hadv
    dsimp only at hadv
    rw [hst] at hadv
    split at hadv
    · cases hadv
    · cases hadv

/-- **Every step of a run is such an act**, and then it is written down how far the run is. -/
theorem advance_acts (hadv : h.advance s r = some h') :
    ∃ st es st' h₁, h.status? r = some st ∧ (∀ outcome, st ≠ .ended outcome) ∧
      h.Act s r st es st' h₁ ∧
      h' = h₁.setStatus r st' := by
  obtain ⟨st, st', h₁, hst, ⟨es, hact⟩, heq⟩ := advance_leads (s := s) (r := r)
    (Q := fun st st' h₁ => ∃ es, h.Act s r st es st' h₁) (fun _ => begin_acts s r h)
    (fun a _ => step_acts s r a h) (fun st _ => dropRun_acts s r h st) hadv
  exact ⟨st, es, st', h₁, hst, fun o ho => status?_ne_ended hadv o (ho ▸ hst), hact, heq⟩

end Host

end ChangeCapture
