import BatchRelay.Proofs.Guarantees.GroupOrder

/-!
# How often an item is sent

Sending a group hands each of its items to the network at most once.  In calm
surroundings a group of a stored batch is sent at most once, because the item
whose outcome completes the group before it can take only one outcome.
-/

namespace BatchRelay

/-- Whether a transaction was handed to the network for a place. -/
def Happening.sends (origin : Origin) : Happening → Bool
  | .sent other _ _ => other = origin
  | _ => false

/-- How often a transaction was handed to the network for a place. -/
def World.sendings (world : World) (origin : Origin) : Nat :=
  world.journal.countP (Happening.sends origin)

theorem World.sendings_eq_zero {world : World} {address id : String}
    {position : Position}
    (unsent : ¬world.SentFor address id position.group) :
    world.sendings ⟨address, id, position⟩ = 0 := by
  apply List.countP_eq_zero.2
  intro happening member sends
  cases happening with
  | sent other payload answer =>
      obtain rfl : other = ⟨address, id, position⟩ := by
        simpa [Happening.sends] using sends
      exact unsent ⟨position.item, payload, answer, member⟩
  | _ => cases sends

namespace Surroundings

variable {surroundings : Surroundings} {lifetimes : Lifetimes}
  {routes : List (String × Route)} {address id hash : String} {origin : Origin}
  {past steps : List Step} {world middle last : World}

theorem sendings_after_unsent {step : Step}
    (unsent : ∀ payload, step.request ≠ .send origin payload) :
    (surroundings.after step).sendings origin = step.world.sendings origin := by
  rw [World.sendings, journal_after, List.countP_append]
  obtain ⟨world, request⟩ := step
  cases request with
  | send other payload =>
      have isOther : other ≠ origin := by
        rintro rfl
        exact unsent payload rfl
      simp [happened, Happening.sends, isOther, World.sendings]
  | _ => simp [happened, Happening.sends, World.sendings]

theorem sendings_after_send {route : Route} {position : Position}
    {payload : Transaction} :
    (surroundings.after (.send world route position payload)).sendings origin =
      world.sendings origin +
        if origin = ⟨route.address, route.batchId, position⟩ then 1 else 0 := by
  split
  case isTrue same =>
    subst same
    rw [World.sendings, journal_after, List.countP_append, Nat.add_comm]
    simp [happened, Step.send, Happening.sends, World.sendings]
  case isFalse isOther =>
    apply sendings_after_unsent
    intro other sends
    cases sends
    exact isOther rfl

theorem Linked.sendings_eq (links : surroundings.Linked world steps last)
    (unsent : ∀ step ∈ steps, ∀ payload,
      step.request ≠ .send origin payload) :
    last.sendings origin = world.sendings origin :=
  (links.constant (World.sendings · origin) fun step member =>
    sendings_after_unsent (unsent step member)).2

/-! ## Sending a group -/

/-- Each item is sent at most once, and none that stands before the first. -/
theorem Sent.sendings_le {route : Route} {position : Position}
    {items items' : List Item}
    (sent : surroundings.Sent lifetimes route position items world items' steps
      last) (origin : Origin) :
    last.sendings origin ≤ world.sendings origin + 1 ∧
      (origin.position.item < position.item →
        last.sendings origin = world.sendings origin) := by
  -- The second half is for the rest, which never comes back to an earlier place.
  induction sent with
  | none => exact ⟨Nat.le_succ _, fun _ => rfl⟩
  | @taken position item items items' world last steps hash answer rest
      induction =>
      have between : (surroundings.after (.writeRoute lifetimes
          (surroundings.after (.send world route position item.payload)) hash
          route)).sendings origin = (surroundings.after
            (.send world route position item.payload)).sendings origin :=
        sendings_after_unsent fun _ => nofun
      rw [between, sendings_after_send] at induction
      obtain ⟨atMost, before⟩ := induction
      by_cases here : origin = ⟨route.address, route.batchId, position⟩
      case pos =>
        subst here
        rw [if_pos rfl] at before
        have exactly := before (Nat.lt_succ_self _)
        exact ⟨Nat.le_of_eq exactly, fun less => absurd less (Nat.lt_irrefl _)⟩
      case neg =>
        rw [if_neg here] at atMost before
        exact ⟨atMost, fun less => before (Nat.lt_succ_of_lt less)⟩
  | @refused position item items world error answer =>
      rw [sendings_after_send]
      split
      case isTrue here =>
        subst here
        exact ⟨Nat.le_refl _, fun less => absurd less (Nat.lt_irrefl _)⟩
      case isFalse => exact ⟨Nat.le_succ _, fun _ => rfl⟩

theorem Started.sendings_le {owner : String} {batch batch' : Batch} {index : Nat}
    (started : surroundings.Started lifetimes batch owner index world batch' steps
      last) (origin : Origin) :
    last.sendings origin ≤ world.sendings origin + 1 := by
  cases started with
  | sent present sent =>
      have clocked : (surroundings.after (.clock world)).sendings origin =
          world.sendings origin := sendings_after_unsent fun _ => nofun
      rw [← clocked]
      exact (sent.sendings_le origin).1

theorem Followed.sendings_le {owner : String} {batch batch' : Batch}
    {index : Nat} {outcome : ItemStatus}
    (followed : surroundings.Followed lifetimes owner batch index outcome world
      batch' steps last) (origin : Origin) :
    last.sendings origin ≤ world.sendings origin + 1 := by
  cases followed with
  | continued _ _ _ next => exact next.sendings_le origin
  | @stopped started steps last event _ _ _ next =>
      have told : (surroundings.after ⟨last, .publish event⟩).sendings origin =
          last.sendings origin := sendings_after_unsent fun _ => nofun
      rw [told]
      exact next.sendings_le origin
  | _ => exact Nat.le_succ _

/-! ## A stored batch -/

/-- A batch that is stored, and for none of whose places more than one
transaction was sent on top of a number of earlier ones. -/
structure SentOnce (surroundings : Surroundings) (address id : String)
    (earlier : Position → Nat) (world : World) : Prop where
  stored : ∃ batch, surroundings.stored? world address id = some batch
  once : ∀ position,
    world.sendings ⟨address, id, position⟩ ≤ earlier position + 1

variable {earlier : Position → Nat}

theorem SentOnce.leave
    (sentOnce : surroundings.SentOnce address id earlier world)
    (bypasses : surroundings.Bypasses address id routes world steps last) :
    surroundings.SentOnce address id earlier last where
  stored := by
    rw [bypasses.stored?_eq]
    exact sentOnce.stored
  once position := by
    rw [bypasses.links.sendings_eq fun _ => bypasses.unsent]
    exact sentOnce.once position

theorem SentOnce.apply {outcome : ItemStatus} {batch batch' : Batch}
    {position : Position} {item : Item}
    (sentOnce : surroundings.SentOnce address id earlier world)
    (inOrder : surroundings.GroupsInOrder address id past world)
    (sound : world.Sound routes) (clean : Address.Clean address)
    (applied : surroundings.Applied lifetimes hash id address outcome world batch
      batch' position item steps middle)
    (write : surroundings.Calm (.writeRecord lifetimes middle address batch')) :
    surroundings.SentOnce address id earlier
      (surroundings.written lifetimes middle address batch') := by
  have named := applied.named sound clean
  constructor
  · exact ⟨batch', stored?_after_calm_write write (applied.soundMiddle sound clean)
      (applied.key sound clean)⟩
  · intro place
    have wrote : (surroundings.written lifetimes middle address batch').sendings
        ⟨address, id, place⟩ = middle.sendings ⟨address, id, place⟩ :=
      sendings_after_unsent fun _ => nofun
    have read : (surroundings.after (.readRecord world address id)).sendings
        ⟨address, id, place⟩ = world.sendings ⟨address, id, place⟩ :=
      sendings_after_unsent fun _ => nofun
    rw [wrote]
    -- Only the group after that of the outcome may have been sent.
    by_cases next : steps ≠ [] ∧ place.group = position.group + 1
    case pos =>
      have unsent := applied.unsent_next inOrder next.1
      rw [← next.2] at unsent
      have atMost := applied.followed.sendings_le ⟨address, id, place⟩
      rw [read, World.sendings_eq_zero unsent] at atMost
      exact Nat.le_trans atMost (Nat.le_add_left _ _)
    case neg =>
      rw [applied.followed.linked.sendings_eq, read]
      · exact sentOnce.once place
      · intro step member payload sends
        apply next
        exact ⟨List.ne_nil_of_mem member,
          ((applied.followed.sends step member).origin sends).2.2⟩

theorem SentOnce.reconcile {batchId owner : String} {outcome : ItemStatus}
    (sentOnce : surroundings.SentOnce address id earlier world)
    (inOrder : surroundings.GroupsInOrder address id past world)
    (sound : world.Sound routes) (clean : Address.Clean address)
    (cleanOwner : Address.Clean owner)
    (reconciling : surroundings.Reconciling lifetimes hash batchId owner outcome
      world steps last)
    (calm : ∀ step ∈ steps, surroundings.Calm step) :
    surroundings.SentOnce address id earlier last := by
  rcases reconciling.leaves_or_applied sound cleanOwner address id with leaves |
    ⟨same, batch, batch', position, item, sending, middle, applied, rfl, rfl⟩
  · exact sentOnce.leave ⟨sound, reconciling.linked,
      reconciling.writesGenuine sound cleanOwner, calm, leaves⟩
  · obtain ⟨rfl, rfl⟩ := Records.key_inj cleanOwner clean same
    have write := calm (.writeRecord lifetimes middle owner batch') (by simp)
    have remove := calm (.removeRoute
      (surroundings.written lifetimes middle owner batch') hash) (by simp)
    have written := sentOnce.apply inOrder sound clean applied write
    exact written.leave (.removeRoute (applied.soundWritten sound clean) remove)

theorem SentOnce.submit {request : BatchRequest}
    (sentOnce : surroundings.SentOnce address id earlier world)
    (sound : world.Sound routes)
    (submitting : surroundings.Submitting lifetimes request world steps last)
    (calm : ∀ step ∈ steps, surroundings.Calm step) :
    surroundings.SentOnce address id earlier last := by
  rcases submitting.leaves_or_offered address id with leaves |
    ⟨owner, batch, batch', sending, ending, same, offered, -⟩
  · exact sentOnce.leave ⟨sound, submitting.linked, submitting.writesGenuine,
      calm, leaves⟩
  · rcases sentOnce.stored with ⟨found, stored⟩
    rw [offered.stored?_eq_none same] at stored
    cases stored

theorem Submitting.sentOnce {request : BatchRequest} {batch : Batch}
    (submitting : surroundings.Submitting lifetimes request world steps last)
    (sound : world.Sound [])
    (calm : ∀ step ∈ steps, surroundings.Calm step)
    (absent : surroundings.stored? world address id = none)
    (stored : surroundings.stored? last address id = some batch) :
    surroundings.SentOnce address id
      (fun position => world.sendings ⟨address, id, position⟩) last := by
  refine ⟨⟨batch, stored⟩, fun position => ?_⟩
  rcases submitting.leaves_or_offered address id with leaves |
    ⟨owner, fresh, batch', sending, ending, same, offered, ends⟩
  case inl =>
    have bypasses : surroundings.Bypasses address id [] world steps last :=
      ⟨sound, submitting.linked, submitting.writesGenuine, calm, leaves⟩
    rw [bypasses.stored?_eq, absent] at stored
    cases stored
  have read : (surroundings.after
      (.readRecord world owner request.id)).sendings ⟨address, id, position⟩ =
        world.sendings ⟨address, id, position⟩ := sendings_after_unsent fun _ => nofun
  have atMost := offered.sent.sendings_le ⟨address, id, position⟩
  rw [read] at atMost
  rcases ends with ⟨-, rfl, -⟩ | ⟨-, rfl, -⟩
  · exact atMost
  · have wrote : (surroundings.written lifetimes ending owner batch').sendings
        ⟨address, id, position⟩ = ending.sendings ⟨address, id, position⟩ :=
      sendings_after_unsent fun _ => nofun
    rw [wrote]
    exact atMost

theorem invariant_sentOnce (clean : Address.Clean address) :
    Invariant surroundings lifetimes surroundings.Calm fun _ past world =>
      surroundings.GroupsInOrder address id past world ∧
        surroundings.SentOnce address id earlier world := by
  have ordered : Invariant surroundings lifetimes surroundings.Calm
      fun _ => surroundings.GroupsInOrder address id :=
    invariant_groupsInOrder clean
  constructor
  case aside =>
    intro _ _ world request sound ⟨inOrder, sentOnce⟩ calm isAside
    constructor
    · exact ordered.aside sound inOrder calm isAside
    · exact sentOnce.leave (.aside sound calm isAside)
  case found => exact fun _ held _ => held
  case forgotten => exact fun held => held
  case reconciled =>
    intro _ _ _ _ _ _ _ _ sound ⟨inOrder, sentOnce⟩ member final reconciling calm
    constructor
    · exact ordered.reconciled sound inOrder member final reconciling calm
    · exact sentOnce.reconcile inOrder sound clean (sound.found _ member).address
        reconciling calm
  case submitted =>
    intro _ _ _ _ _ sound ⟨inOrder, sentOnce⟩ submitting calm
    constructor
    · exact ordered.submitted sound inOrder submitting calm
    · exact sentOnce.submit sound submitting calm

end Surroundings

namespace Run

variable (run : Run)

theorem sendings_of_not_clean {address id : String}
    (unclean : ¬Address.Clean address) (position : Position) :
    run.final.sendings ⟨address, id, position⟩ = 0 := by
  rw [run.linked.sendings_eq]
  · rfl
  · intro step member payload sends
    exact unclean (run.clean_of_send member sends)

/-- In calm surroundings each item of a batch is sent at most once from the
submission on that stores the batch. -/
theorem items_sent_once (calm : run.Calm) {front back : List Command}
    {request : BatchRequest} {sourceIp : Option String}
    (commands : run.commands = front ++ .submit request sourceIp :: back)
    {address id : String} {batch : Batch}
    (absent : run.surroundings.stored? (run.worldAfter front) address id = none)
    (stored : run.surroundings.stored?
      (run.worldAfter (front ++ [.submit request sourceIp])) address id =
        some batch) (position : Position) :
    run.final.sendings ⟨address, id, position⟩ ≤
      (run.worldAfter front).sendings ⟨address, id, position⟩ + 1 := by
  by_cases clean : Address.Clean address
  case neg =>
    rw [run.sendings_of_not_clean clean]
    exact Nat.zero_le _
  case pos =>
    have ordered : Invariant run.surroundings run.lifetimes
        run.surroundings.Calm
        fun _ => run.surroundings.GroupsInOrder address id :=
      Surroundings.invariant_groupsInOrder clean
    have invariant : Invariant run.surroundings run.lifetimes
        run.surroundings.Calm fun _ past world =>
          run.surroundings.GroupsInOrder address id past world ∧
            run.surroundings.SentOnce address id (fun position =>
              (run.worldAfter front).sendings ⟨address, id, position⟩) world :=
      Surroundings.invariant_sentOnce clean
    have admits (step : Step) (member : step ∈ run.steps) :
        run.surroundings.Calm step := calm.step member
    have start := run.groupsInOrder_start address id
    obtain ⟨sound, -⟩ := holds_after ordered commands admits start
    have upTo : run.commands = front ++ [.submit request sourceIp] ++ back := by
      rw [commands, List.append_assoc, List.singleton_append]
    obtain ⟨soundThen, inOrder⟩ := holds_after ordered upTo admits start
    have submitting := run.surroundings.submit_submitting run.lifetimes request
      sourceIp (run.worldAfter front)
    rw [← worldAfter_submit] at submitting
    have sentOnce := submitting.sentOnce sound
      (fun step member => calm.step (mem_steps_of_submit commands member)) absent
      stored
    exact (holds_from invariant upTo admits soundThen
      ⟨inOrder, sentOnce⟩).2.once position

theorem retried_item_sent_once : Sample.attempts.Calm ∧
    Sample.attempts.final.sendings ⟨Sample.alice, "b", ⟨0, 0⟩⟩ ≤
      (Sample.attempts.worldAfter [.submit (.ofGroups "b"
        [[Sample.early, Sample.refused]]) none]).sendings
        ⟨Sample.alice, "b", ⟨0, 0⟩⟩ + 1 := by
  have calm : Sample.attempts.Calm := Sample.run_calm Sample.third []
  have retry : Retry Sample.attempts.surroundings Sample.alice "b" Sample.early
      Sample.refused Sample.first Sample.third Sample.noFunds :=
    Sample.retry Sample.third
  obtain ⟨absent, stored⟩ := retry.stored?_attempts rfl
  exact ⟨calm, Sample.attempts.items_sent_once calm rfl absent stored ⟨0, 0⟩⟩

end Run

end BatchRelay
