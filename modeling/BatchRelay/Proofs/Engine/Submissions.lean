import BatchRelay.Proofs.Engine.Performances
import BatchRelay.Proofs.Engine.SharedRecords

/-!
# Submissions among others

A submission looks for a record of its batch once, in the beginning, and stores
one at most, in the end.  Between the two it sends its first group, and whoever
takes a turn meanwhile finds the routes of that group and no record.
-/

namespace BatchRelay

theorem BatchRequest.Passes.admits {request : BatchRequest}
    {sourceIp : Option String} {address : String} {batch : Batch}
    (passes : request.Passes sourceIp address batch) :
    request.Admits address batch :=
  BatchRequest.admits passes.shaped passes.checked passes.made

theorem BatchRequest.Admits.firstGroup {request : BatchRequest}
    {address : String} {batch : Batch}
    (admits : request.Admits address batch) :
    ∃ group, batch.groups[0]? = some group ∧
      group.items.map Item.payload = request.transactions.headD [] ∧
      ∀ item ∈ group.items, item.status = .pending := by
  have inside := admits.proper.length_pos
  refine ⟨batch.groups[0], List.getElem?_eq_getElem inside, ?_, ?_⟩
  · rw [← admits.payloads, Batch.payloads, List.headD_eq_head?_getD,
      List.head?_map, List.head?_eq_getElem?, List.getElem?_eq_getElem inside]
    rfl
  · intro item member
    rcases List.mem_iff_getElem?.1 member with ⟨place, found⟩
    apply admits.fresh.untouched ⟨0, place⟩ item
    exact Batch.item?_eq_some_iff.2
      ⟨_, List.getElem?_eq_getElem inside, found⟩

namespace Surroundings

variable {surroundings : Surroundings} {lifetimes : Lifetimes}
  {request : BatchRequest} {sourceIp : Option String} {address : String}
  {batch started : Batch} {steps : List Step}
  {result : Except BatchError Batch}

/-! ## The first group -/

section FirstGroup

variable (admits : request.Admits address batch)
  (starts : surroundings.Performs (BatchRelay.startGroup lifetimes batch 0) steps
    started)

include admits starts

theorem Performs.sendsFirst :
    ∃ group world rest items, batch.groups[0]? = some group ∧
      surroundings.Performs (sendItems lifetimes
        ⟨batch.id, address, surroundings.now world.moment⟩ ⟨0, 0⟩ group.items)
        rest items ∧
      steps = .clock world :: rest ∧
      started = batch.modifyGroup 0 fun _ => ⟨items⟩ := by
  rcases starts.startGroup with ⟨absent, -, -⟩ |
    ⟨owner, group, world, rest, items, isSender, present, sends, rfl, rfl⟩
  · rcases admits.firstGroup with ⟨group, present, -, -⟩
    rw [admits.proper.sender, present] at absent
    simp at absent
  · rw [admits.proper.sender] at isSender
    cases isSender
    exact ⟨group, world, rest, items, present, sends, rfl, rfl⟩

theorem Performs.startedProper : started.Proper address := by
  have sending := starts.startGroup_onlySends
  exact admits.proper.transfer sending.id sending.payloads

theorem Performs.startedId : started.id = request.id := by
  rw [starts.startGroup_onlySends.id, admits.id]

theorem Performs.firstSends : ∀ step ∈ steps, ∃ group,
    step.request.Sends lifetimes address request.id group := by
  intro step member
  have sends := starts.startGroup_onlySends.sends step member
  rwa [admits.proper.sender, admits.id] at sends

theorem Performs.firstTaken
    (takes : ∀ transaction ∈ request.transactions.headD [], ∀ moment, ∃ hash,
      surroundings.send moment transaction = .ok hash) :
    started.invalidHashesAt 0 = [] := by
  rcases admits.firstGroup with ⟨group, present, payloads, pending⟩
  rcases starts.sendsFirst admits with
    ⟨same, world, rest, items, isFirst, sends, -, rfl⟩
  rw [present] at isFirst
  cases isFirst
  rw [Batch.invalidHashesAt_modifyGroup admits.proper.length_pos]
  have statuses := sends.sendItems_taken (by
    intro item member
    apply takes
    rw [← payloads]
    exact List.mem_map_of_mem member)
  intro item member invalid
  have isStatus : item.status ∈ group.items.map Item.status := by
    rw [← statuses]
    exact List.mem_map_of_mem member
  rcases List.mem_map.1 isStatus with ⟨before, inGroup, same⟩
  rw [pending before inGroup, invalid] at same
  cases same

section Taken

variable (taken : started.invalidHashesAt 0 = [])

include taken

theorem Performs.firstSent :
    steps.filterMap Step.sent? = request.transactions.headD [] := by
  rcases admits.firstGroup with ⟨group, present, payloads, -⟩
  rcases starts.sendsFirst admits with
    ⟨same, world, rest, items, isFirst, sends, rfl, rfl⟩
  rw [present] at isFirst
  cases isFirst
  rw [Batch.invalidHashesAt_modifyGroup admits.proper.length_pos] at taken
  exact (sends.sendItems_clean taken).1.trans payloads

theorem Performs.firstIndexed {place : Nat} {item : Item}
    (found : started.item? ⟨0, place⟩ = some item) :
    ∃ world since, .writeRoute lifetimes world item.hash
      ⟨request.id, address, since⟩ ∈ steps := by
  rcases admits.firstGroup with ⟨group, present, -, -⟩
  rcases starts.sendsFirst admits with
    ⟨same, world, rest, items, isFirst, sends, rfl, rfl⟩
  rw [Batch.invalidHashesAt_modifyGroup admits.proper.length_pos] at taken
  rw [Batch.item?_modifyGroup_self _ present] at found
  rcases (sends.sendItems_clean taken).2.2 item (List.mem_of_getElem? found) with
    ⟨indexed, member⟩
  rw [admits.id] at member
  exact ⟨indexed, _, List.mem_cons_of_mem _ member⟩

end Taken

end FirstGroup

/-! ## Whole submissions -/

namespace Answers

variable (answers : surroundings.Answers lifetimes request sourceIp steps result)

include answers

/-- A submission reads records, sends for its batch and stores it. -/
theorem forall_steps (holds : Step → Prop)
    (reads : ∀ world owner, holds (.readRecord world owner request.id))
    (sends : ∀ owner batch, request.Admits owner batch → ∀ step group,
      step.request.Sends lifetimes owner request.id group → holds step)
    (stores : ∀ world owner batch, batch.Proper owner →
      holds (.writeRecord lifetimes world owner batch)) :
    ∀ step ∈ steps, holds step := by
  have sending {owner : String} {batch started : Batch} {middle : List Step}
      (passes : request.Passes sourceIp owner batch)
      (starts : surroundings.Performs (startGroup lifetimes batch 0) middle
        started) : ∀ step ∈ middle, holds step := by
    intro step member
    rcases starts.firstSends passes.admits step member with ⟨group, isSending⟩
    exact sends owner batch passes.admits step group isSending
  cases answers with
  | malformed => exact List.forall_mem_nil _
  | unread | duplicate | unsound | unmade =>
      exact List.forall_mem_singleton.2 (reads _ _)
  | refused passes _ starts =>
      exact List.forall_mem_cons.2 ⟨reads _ _, sending passes starts⟩
  | stored passes _ starts | unstored passes _ starts =>
      simp only [List.forall_mem_cons, List.forall_mem_append,
        List.not_mem_nil, false_implies, implies_true, and_true]
      have proper := starts.startedProper passes.admits
      exact ⟨reads _ _, sending passes starts, stores _ _ _ proper⟩

theorem writesGenuine : ∀ step ∈ steps, step.request.WritesGenuine := by
  refine answers.forall_steps (fun step => step.request.WritesGenuine) ?reads
    ?sends ?stores
  case reads => exact fun _ _ => .ofUnwritten rfl
  case sends =>
    intro owner batch admits step group sends
    exact sends.writesGenuine admits.proper.clean (admits.id ▸ admits.proper.id)
  case stores => exact fun _ _ _ proper => .ofRecord proper _

theorem onlyStores (owner id : String) :
    ∀ step ∈ steps, OnlyStores lifetimes owner id step := by
  refine answers.forall_steps (OnlyStores lifetimes owner id) ?reads ?sends
    ?stores
  case reads => exact fun _ _ => onlyStores_of_untouched nofun
  case sends =>
    intro _ _ _ step group sends
    exact onlyStores_of_untouched (sends.untouched owner id)
  case stores =>
    intro world other batch _ touched
    exact ⟨other, batch, Option.some.inj touched, rfl⟩

theorem writesForever (forever : lifetimes = .forever) :
    ∀ step ∈ steps, step.request.WritesForever := by
  subst forever
  refine answers.forall_steps (fun step => step.request.WritesForever) ?reads
    ?sends ?stores
  case reads => exact fun _ _ => trivial
  case sends => exact fun _ _ _ _ _ sends => sends.writesForever
  case stores => exact fun _ _ _ _ _ => rfl

end Answers

theorem Performs.performSubmit {answer : Unit}
    (performs : surroundings.Performs
      (performAll lifetimes [.submit request sourceIp]) steps answer) :
    ∃ result, surroundings.Answers lifetimes request sourceIp steps result := by
  rcases performs_bind.1 performs with ⟨_, _, _, rfl, commands, ends⟩
  rcases performs_pure.1 ends with ⟨rfl, -⟩
  rcases performs_bind.1 commands with ⟨own, result, _, rfl, submits, last⟩
  rcases performs_pure.1 last with ⟨rfl, -⟩
  rw [List.append_nil, List.append_nil]
  exact ⟨result, submits.submit⟩

/-! ## Submissions that are taken on -/

/-- A call that has found no record of its batch, has sent the first group and
has stored the batch. -/
structure TakenOn (lifetimes : Lifetimes) (address : String)
    (request : BatchRequest) (checked stored : World) (batch : Batch)
    (steps : List Step) (result : Except BatchError Batch) : Prop where
  sent : steps.filterMap Step.sent? = request.transactions.headD []
  steps : ∃ middle,
    (∀ step ∈ middle, ∃ group,
      step.request.Sends lifetimes address request.id group) ∧
    steps = .readRecord checked address request.id ::
      (middle ++ [.writeRecord lifetimes stored address batch])
  id : batch.id = request.id
  result : result = .ok batch

section TakenOn

variable {checked stored : World}

namespace TakenOn

variable (takenOn : TakenOn lifetimes address request checked stored batch steps
  result)

include takenOn

theorem checked_mem : .readRecord checked address request.id ∈ steps := by
  rcases takenOn.steps with ⟨middle, -, rfl⟩
  exact List.mem_cons_self

theorem stored_mem : .writeRecord lifetimes stored address batch ∈ steps := by
  rcases takenOn.steps with ⟨middle, -, rfl⟩
  simp

theorem eq_of_touched {step : Step} (member : step ∈ steps)
    (touched : step.request.touched? = some (Records.key address request.id)) :
    step = .writeRecord lifetimes stored address batch := by
  rcases takenOn.steps with ⟨middle, sends, rfl⟩
  simp only [List.mem_cons, List.mem_append, List.not_mem_nil, or_false]
    at member
  rcases member with rfl | inMiddle | rfl
  · cases touched
  · rcases sends step inMiddle with ⟨group, sends⟩
    exact absurd touched (sends.untouched address request.id)
  · rfl

theorem sends_of_touched {step : Step} {hash : String} (member : step ∈ steps)
    (touched : step.request.touched? = some (Routes.key hash)) :
    ∃ group, step.request.Sends lifetimes address request.id group := by
  rcases takenOn.steps with ⟨middle, sends, rfl⟩
  simp only [List.mem_cons, List.mem_append, List.not_mem_nil, or_false]
    at member
  rcases member with rfl | inMiddle | rfl
  · cases touched
  · exact sends step inMiddle
  · exact absurd (Option.some.inj touched) (Records.key_ne_routeKey _ _ _)

end TakenOn

theorem takenOn_of_starts (admits : request.Admits address batch)
    (starts : surroundings.Performs (startGroup lifetimes batch 0) steps started)
    (taken : started.invalidHashesAt 0 = []) :
    TakenOn lifetimes address request checked stored started
      (.readRecord checked address request.id ::
        (steps ++ [.writeRecord lifetimes stored address started]))
      (.ok started) where
  sent := by
    have sent := starts.firstSent admits taken
    simp only [List.filterMap_cons, List.filterMap_append, sent]
    exact List.append_nil _
  steps := ⟨steps, starts.firstSends admits, rfl⟩
  id := starts.startedId admits
  result := rfl

theorem writeRecord_inj {world other : World} {batch changed : Batch}
    (same : Step.writeRecord lifetimes world address batch =
      .writeRecord lifetimes other address changed) :
    world = other ∧ batch = changed := by
  simp only [Step.writeRecord, Step.mk.injEq, Request.write.injEq] at same
  rcases same with ⟨isWorld, -, isText, -⟩
  have parsed := congrArg Batch.parse isText
  rw [Batch.parse_render, Batch.parse_render] at parsed
  cases parsed
  exact ⟨isWorld, rfl⟩

/-- A submission that has stored a batch was taken on, and every item of the first
group has got a route. -/
theorem Answers.takenOn_of_store
    (answers : surroundings.Answers lifetimes request sourceIp steps result)
    (shaped : request.checkShape = .ok address)
    (works : ∀ step ∈ steps, ∀ access,
      surroundings.fault step.world.moment access = none)
    (member : .writeRecord lifetimes stored address batch ∈ steps) :
    ∃ checked,
      TakenOn lifetimes address request checked stored batch steps result ∧
      (surroundings.run (Records.get address request.id) checked).1 = .ok none ∧
      ∀ place item, batch.item? ⟨0, place⟩ = some item → ∃ world since,
        .writeRoute lifetimes world item.hash ⟨request.id, address, since⟩ ∈
          steps := by
  have sending {owner : String} {made started : Batch} {middle : List Step}
      (passes : request.Passes sourceIp owner made)
      (starts : surroundings.Performs (startGroup lifetimes made 0) middle
        started) : .writeRecord lifetimes stored address batch ∉ middle := by
    intro inMiddle
    rcases starts.firstSends passes.admits _ inMiddle with ⟨group, sends⟩
    exact sends.untouched address batch.id rfl
  cases answers with
  | malformed => cases member
  | unread | duplicate | unsound | unmade =>
      cases List.mem_singleton.1 member
  | refused passes _ starts =>
      rcases List.mem_cons.1 member with same | inMiddle
      · cases same
      · exact absurd inMiddle (sending passes starts)
  | @stored checked later owner made started middle passes read starts taken _ =>
      have isOwner := passes.shaped
      rw [shaped] at isOwner
      cases isOwner
      have admits := passes.admits
      simp only [List.mem_cons, List.mem_append, List.not_mem_nil, or_false]
        at member
      rcases member with same | inMiddle | same
      · cases same
      · exact absurd inMiddle (sending passes starts)
      · rcases writeRecord_inj same with ⟨rfl, rfl⟩
        refine ⟨checked, takenOn_of_starts admits starts taken, read, ?_⟩
        intro place item found
        rcases starts.firstIndexed admits taken found with
          ⟨world, since, inMiddle⟩
        refine ⟨world, since, ?_⟩
        exact List.mem_cons_of_mem _ (List.mem_append_left _ inMiddle)
  | @unstored checked later owner made started middle error _ _ _ _ fails =>
      exact absurd fails (not_fails_of_works lifetimes works (by simp))

end TakenOn

/-! ## Submissions alone -/

section Alone

variable {world : World} (surroundings) (world)
  (shaped : request.checkShape = .ok address)

include shaped

theorem steps_validate :
    surroundings.steps request.validate world =
      [.readRecord world address request.id] := by
  simp only [BatchRequest.validate, shaped, Bind.bind, steps_bind, steps_get]
  split <;> rfl

theorem world_validate :
    (surroundings.run request.validate world).2 =
      surroundings.after (.readRecord world address request.id) := by
  have links : surroundings.Linked world _ _ :=
    surroundings.linked request.validate
  rw [surroundings.steps_validate world shaped] at links
  generalize (surroundings.run request.validate world).2 = reached at links ⊢
  cases links with
  | cons rest =>
      cases rest
      rfl

theorem steps_submit (lifetimes : Lifetimes) (sourceIp : Option String) :
    ∃ rest, surroundings.steps (submit lifetimes request sourceIp) world =
      .readRecord world address request.id :: rest := by
  simp only [submit, Bind.bind, steps_bind,
    surroundings.steps_validate world shaped]
  exact ⟨_, rfl⟩

end Alone

/-! ## Others between the sending and the storing -/

section Overtaken

variable {world : World} (commands : Bool → List Command)

/-- A submission goes on after its check in whatever worlds it finds. -/
theorem performs_submit {checked stored : World}
    (passes : request.Passes sourceIp address batch)
    (read : (surroundings.run (Records.get address request.id) checked).1 =
      .ok none)
    (starts : surroundings.Performs (startGroup lifetimes batch 0) steps started)
    (taken : started.invalidHashesAt 0 = [])
    (works : surroundings.fault stored.moment
      (.write (Records.key address started.id)) = none) :
    surroundings.Performs (submit lifetimes request sourceIp)
      (.readRecord checked address request.id ::
        (steps ++ [.writeRecord lifetimes stored address started]))
      (.ok started) := by
  have validated : (surroundings.run request.validate checked).1 =
      .ok address := by
    simp only [BatchRequest.validate, passes.shaped, Bind.bind, Pure.pure, run_bind,
      read, run, passes.checked, Except.ok_map]
  have checks := surroundings.steps_performs request.validate checked
  rw [surroundings.steps_validate checked passes.shaped, validated] at checks
  have puts := surroundings.steps_performs
    (Records.put lifetimes address started) stored
  rw [steps_put, put_eq_ok_iff.2 works] at puts
  refine performs_bind.2 ⟨_, _, _, rfl, checks, ?_⟩
  simp only [passes.made]
  refine performs_bind.2 ⟨_, _, _, rfl, starts, ?_⟩
  simp only [taken, ne_eq, not_true_eq_false, if_false]
  exact performs_bind.2 ⟨_, _, [], rfl, puts, .done⟩

/-- The others come when the first group is sent, and before the record is
stored. -/
theorem interleaves_before_store
    (submits : commands true = [.submit request sourceIp])
    (passes : request.Passes sourceIp address batch)
    (works : ∀ moment access, surroundings.fault moment access = none)
    (absent : surroundings.value? world (Records.key address request.id) = none)
    {sent between : World}
    (starts : surroundings.run (startGroup lifetimes batch 0)
      (surroundings.after (.readRecord world address request.id)) =
        (started, sent))
    (taken : started.invalidHashesAt 0 = [])
    (others : (surroundings.run (performAll lifetimes (commands false)) sent).2 =
      between) :
    ∃ turns, surroundings.Interleaves
        (fun who => performAll lifetimes (commands who)) world turns (fun _ => ())
        (surroundings.written lifetimes between address started) ∧
      (true, .writeRecord lifetimes between address started) ∈ turns := by
  have read : (surroundings.run (Records.get address request.id) world).1 =
      .ok none := get_eq_none_iff.2 ⟨works _ _, absent⟩
  have alone {α : Type} (activity : Activity α) (world : World) :
      ∃ steps, surroundings.Linked world steps (surroundings.run activity world).2 ∧
        surroundings.Performs activity steps (surroundings.run activity world).1 :=
    ⟨_, surroundings.linked activity, steps_performs activity world⟩
  have starting := alone (startGroup lifetimes batch 0)
    (surroundings.after (.readRecord world address request.id))
  rw [starts] at starting
  have passing := alone (performAll lifetimes (commands false)) sent
  rw [others] at passing
  rcases starting with ⟨front, linksFront, performsStart⟩
  rcases passing with ⟨middle, linksMiddle, performsOthers⟩
  have whole := performs_submit passes read performsStart taken
    (works between.moment (.write (Records.key address started.id)))
  have performs : surroundings.Performs (performAll lifetimes (commands true))
      ((.readRecord world address request.id :: front) ++
        [.writeRecord lifetimes between address started]) () := by
    rw [submits]
    refine performs_bind.2 ⟨_, (), [], (List.append_nil _).symm, ?_, .done⟩
    exact performs_bind.2 ⟨_, _, [], (List.append_nil _).symm, whole, .done⟩
  have links : surroundings.Linked world
      ((.readRecord world address request.id :: front) ++
        (middle ++ [.writeRecord lifetimes between address started]))
      (surroundings.written lifetimes between address started) :=
    (Linked.cons linksFront).append (linksMiddle.append
      (.single surroundings (.writeRecord lifetimes between address started)))
  exact ⟨_, interleaves_within links performs performsOthers, by simp⟩

end Overtaken

end Surroundings

end BatchRelay
