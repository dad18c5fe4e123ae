import BatchRelay.Proofs.Engine.Replies
import BatchRelay.Proofs.Engine.Leftovers

/-!
# The exact effect of starting a group

A group is sent item by item until the network does not take one.  What the network has
replied decides what becomes of each item.  A route is there for every item that was
taken, unless it could not be written, and all these routes are the same.

The replies may be any replies and any write may fail.  Which writes fail makes no
difference to the batch and to what is sent.
-/

namespace BatchRelay

theorem GatewayError.rejection?_eq_some_iff {error : GatewayError} {reason : String} :
    error.rejection? = some reason ↔ error = .rejected reason := by
  cases error <;> simp [rejection?]

/-- Whether a batch is another one after the network has replied to a group of it. -/
structure Batch.Receives (before after : Batch) (index : Nat)
    (replies : List (Except GatewayError String)) : Prop where
  id : after.id = before.id
  status : after.status = before.status
  sourceIp : after.sourceIp = before.sourceIp
  length : after.groups.length = before.groups.length
  taken : ∀ place hash, replies[place]? = some (.ok hash) →
    after.item? ⟨index, place⟩ =
      (before.item? ⟨index, place⟩).map fun item => item.adopt hash
  refused : ∀ place error, replies[place]? = some (.error error) →
    ∃ message, (∀ reason, message = some reason ↔ error = .rejected reason) ∧
      after.item? ⟨index, place⟩ = (before.item? ⟨index, place⟩).map fun item =>
        { item with status := .invalid, error := message }
  unsent : ∀ place, replies.length ≤ place →
    after.item? ⟨index, place⟩ = before.item? ⟨index, place⟩
  others : ∀ position, position.group ≠ index →
    after.item? position = before.item? position

namespace Surroundings

/-- Whether the index has gained a route, under every hash by which an item was taken and
its route written, and nothing else has changed. -/
structure Gains (surroundings : Surroundings) (lifetimes : Lifetimes) (route : Route)
    (moment : Nat) (replies : List (Except GatewayError String)) (steps : List Step)
    (world last : World) : Prop where
  indexed : ∀ hash, surroundings.Indexes moment replies hash →
    ∀ now, surroundings.Timely lifetimes.route steps now →
      last.cache.get now (Routes.key hash) = some route.encode
  others : ∀ key,
    (∀ hash, surroundings.Indexes moment replies hash → key ≠ Routes.key hash) →
    surroundings.Unchanged steps world last key

theorem receives_receiveAll {batch : Batch} {index : Nat} {group : Group}
    (present : batch.groups[index]? = some group)
    (replies : List (Except GatewayError String)) :
    batch.Receives
      (batch.modifyGroup index fun _ => ⟨Item.receiveAll group.items replies⟩)
      index replies := by
  have item (place : Nat) :
      (batch.modifyGroup index fun _ => ⟨Item.receiveAll group.items replies⟩).item?
          ⟨index, place⟩ =
        (batch.item? ⟨index, place⟩).map fun item => item.receive replies[place]? := by
    rw [Batch.item?_modifyGroup_self _ present, Item.getElem?_receiveAll]
    simp [Batch.item?, present]
  constructor
  case id | status | sourceIp => rfl
  case length => exact Batch.length_modifyGroup _
  case taken =>
    intro place hash replied
    rw [item, replied]
    rfl
  case refused =>
    intro place error replied
    refine ⟨error.rejection?, fun _ => GatewayError.rejection?_eq_some_iff, ?_⟩
    rw [item, replied]
    rfl
  case unsent =>
    intro place after
    rw [item, List.getElem?_eq_none after]
    exact Option.map_id'
  case others => exact fun position elsewhere => Batch.item?_modifyGroup_of_ne _ elsewhere

/-- Starting a group has exactly the effect it should have on the batch, the network and
the index, whatever the network replies and whichever writes fail. -/
theorem startGroup_exact (surroundings : Surroundings) (lifetimes : Lifetimes)
    (batch : Batch) (index : Nat) (world : World) {first : Item} {group : Group}
    (isFirst : batch.item? ⟨0, 0⟩ = some first)
    (present : batch.groups[index]? = some group)
    (unique : world.cache.entries.Unique) :
    let activity := startGroup lifetimes batch index
    let started := surroundings.run activity world
    let owner := first.payload.sender
    ∃ replies, surroundings.Replies (world.moment + 1) group.items replies ∧
      started.2.journal =
        Happening.sendings owner batch.id ⟨index, 0⟩ group.items replies ++
          world.journal ∧
      batch.Receives started.1 index replies ∧
      surroundings.Gains lifetimes ⟨batch.id, owner, surroundings.now world.moment⟩
        (world.moment + 1) replies (surroundings.steps activity world) world started.2 ∧
      ∀ fault, let failing := { surroundings with fault := fault }
        (failing.run activity world).1 = started.1 ∧
          (failing.run activity world).2.journal = started.2.journal := by
  intro activity started owner
  have isOwner := Batch.address?_of_item? isFirst
  obtain ⟨isStarted, journal⟩ :=
    surroundings.startGroup_replies lifetimes world isOwner present
  refine ⟨surroundings.replies (world.moment + 1) group.items,
    surroundings.replies_spec _ _, journal, ?_, ?_, ?_⟩
  · rw [show started.1 = _ from isStarted]
    exact receives_receiveAll present _
  · obtain ⟨items, sending, sent, -, steps⟩ :=
      surroundings.startGroup_sent lifetimes world isOwner present
    rw [show surroundings.steps activity world = _ from steps]
    have within : sending ⊆ .clock world :: sending := List.subset_cons_self _ _
    constructor
    case indexed =>
      exact fun hash indexes now timely => sent.indexed unique indexes (timely.mono within)
    case others =>
      intro key free now later
      exact sent.unindexed unique free now fun step member => later step (within member)
  · intro fault failing
    obtain ⟨again, journalAgain⟩ :=
      failing.startGroup_replies lifetimes world isOwner present
    have sameSend : failing.send = surroundings.send := rfl
    rw [replies_congr sameSend] at again journalAgain
    exact ⟨again.trans isStarted.symm, journalAgain.trans journal.symm⟩

end Surroundings

namespace Sample

/-- A batch of one group.  The network takes the first two items, refuses the third and
never sees the last. -/
def interrupted : Batch :=
  .ofGroups "b" [[first, third, refused, early]]

/-- Surroundings in which the route of the first item cannot be written. -/
def forgetful : Surroundings :=
  { network third with
    fault := fun _ access =>
      if access = .write (Routes.key first.hash) then some (.backend "down") else none }

theorem replies_interrupted :
    forgetful.replies 1 ([first, third, refused, early].map Item.waiting) =
      [.ok first.hash, .ok third.hash, .error noFunds] := by
  have takes {transaction : HashedTransaction} {moment : Nat}
      (valid : transaction.Valid alice)
      (willing : ¬(transaction.payload.nonce = 2 ∨
        transaction.payload.nonce = 1 ∧ 5 ≤ moment)) :
      (network third).send moment (Item.waiting transaction).payload =
        .ok transaction.hash := network_takes third valid willing
  have refuses {transaction : HashedTransaction} {moment : Nat}
      (unwilling : transaction.payload.nonce = 2) :
      (network third).send moment (Item.waiting transaction).payload = .error noFunds :=
    network_refuses third (.inl unwilling)
  have sameSend : forgetful.send = (network third).send := rfl
  rw [Surroundings.replies_congr sameSend]
  simp only [List.map_cons]
  rw [Surroundings.replies_taken (takes first_valid (by simp [first, transfer])),
    Surroundings.replies_taken (takes third_valid (by simp [third, transfer])),
    Surroundings.replies_refused (refuses rfl)]

end Sample

/-- The second item can be found in the index though the first one cannot, and the third
one has the reason of the network. -/
theorem Sample.interrupted_started :
    let activity := startGroup .forever interrupted 0
    let started := forgetful.run activity (.start (.memory .empty))
    started.2.journal =
        [.sent ⟨alice, "b", ⟨0, 2⟩⟩ refused.payload (.error noFunds),
          .sent ⟨alice, "b", ⟨0, 1⟩⟩ third.payload (.ok third.hash),
          .sent ⟨alice, "b", ⟨0, 0⟩⟩ first.payload (.ok first.hash)] ∧
      started.1.item? ⟨0, 2⟩ = some ⟨refused, .invalid, some "no funds"⟩ ∧
      started.1.item? ⟨0, 3⟩ = some (.waiting early) ∧
      started.2.cache.get 0 (Routes.key first.hash) = none ∧
      started.2.cache.get 0 (Routes.key third.hash) =
        some (Route.encode ⟨"b", alice, ⟨0, 0⟩⟩) := by
  dsimp only
  have present : interrupted.groups[0]? =
      some ⟨[first, third, refused, early].map Item.waiting⟩ := rfl
  have isFirst : interrupted.item? ⟨0, 0⟩ = some (.waiting first) := rfl
  obtain ⟨replies, replied, journal, receives, gains, -⟩ :=
    forgetful.startGroup_exact .forever interrupted 0 (.start (.memory .empty)) isFirst
      present List.nodup_nil
  obtain rfl := replied.eq.trans replies_interrupted
  have still (step : Step) : forgetful.millis step.world = 0 := by
    rw [Surroundings.millis, show forgetful.now step.world.moment = ⟨0, 0⟩ from rfl]
    rfl
  refine ⟨?_, ?_, (receives.unsent 3 (Nat.le_refl _)).trans rfl, ?_, ?_⟩
  · rw [journal]
    rfl
  · obtain ⟨message, isReason, item⟩ := receives.refused 2 noFunds rfl
    obtain rfl := (isReason "no funds").2 rfl
    exact item.trans rfl
  · refine gains.others _ ?_ 0 fun step _ => Int.le_of_eq (still step)
    rintro hash ⟨place, replied, works⟩ same
    obtain rfl := Routes.key_inj same
    simp [forgetful] at works
  · refine gains.indexed third.hash ⟨1, rfl, ?_⟩ 0 nofun
    have isOther : Access.write (Routes.key third.hash) ≠
        .write (Routes.key first.hash) := by decide
    simp only [forgetful, if_neg isOther]

end BatchRelay
