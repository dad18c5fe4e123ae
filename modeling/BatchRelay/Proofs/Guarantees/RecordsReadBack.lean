import BatchRelay.Proofs.Engine.Effects
import BatchRelay.Proofs.Engine.Timeless
import BatchRelay.Proofs.Json.Views
import BatchRelay.Proofs.Transaction.Validity

/-!
# Records are read back

The text of a batch stands for that batch and no other, and so does the text of a
view.  A batch that is stored without a time to live is therefore found again as it
was, however much else happens to the cache, until something touches its own key.
-/

namespace BatchRelay

namespace Surroundings

variable {surroundings : Surroundings} {world last : World} {steps : List Step}
  {key value : String}

theorem Linked.value?_of_written_forever (unique : world.cache.entries.Unique)
    (works : surroundings.fault world.moment (.write key) = none)
    (links : surroundings.Linked
      (surroundings.after ⟨world, .write key value none⟩) steps last)
    (untouched : ∀ step ∈ steps, step.request.touched? ≠ some key) :
    surroundings.value? last key = some value := by
  have written : (key, ⟨value, none⟩) ∈
      (surroundings.after ⟨world, .write key value none⟩).cache.entries := by
    rw [cache_after_write works]
    exact Cache.mem_set.2 (.inl ⟨rfl, rfl⟩)
  exact links.get_of_untouched (unique_after unique) written rfl untouched _

end Surroundings

/-- The texts of batches and of views are read back, and a batch that is stored for
ever is what its key gives. -/
theorem records_read_back :
    (∀ batch : Batch, Batch.parse batch.render = .ok batch) ∧
    (∀ view : BatchView,
      Json.decodeText BatchView.ofJson view.toJson.render = .ok view) ∧
    ∀ (surroundings : Surroundings) (lifetimes : Lifetimes) (address : String)
      (batch : Batch) (world last : World) (steps : List Step),
      lifetimes.batch = none →
      world.cache.entries.Unique →
      (surroundings.run (Records.put lifetimes address batch) world).1 = .ok () →
      surroundings.Linked
        (surroundings.run (Records.put lifetimes address batch) world).2 steps last →
      (∀ step ∈ steps,
        step.request.touched? ≠ some (Records.key address batch.id)) →
      surroundings.fault last.moment (.read (Records.key address batch.id)) = none →
        (surroundings.run (Records.get address batch.id) last).1 =
          .ok (some batch) := by
  refine ⟨Batch.parse_render, BatchView.decodeText_render, ?_⟩
  intro surroundings lifetimes address batch world last steps forever unique stored
    links untouched works
  have writes := Surroundings.put_eq_ok_iff.1 stored
  rw [Surroundings.world_put, Step.writeRecord, forever] at links
  have found := links.value?_of_written_forever unique writes untouched
  apply Surroundings.get_eq_some_iff.2
  refine ⟨works, ?_⟩
  rw [Surroundings.stored?, found, Option.bind_some, Batch.parse_render]
  rfl

namespace Sample

/-- A batch whose texts hold what has to be escaped, with numbers of full range and
an empty group. -/
def peculiar : Batch where
  id := "a\"b\\c\n\x00é𝄞"
  groups :=
    [⟨[⟨{ first with hash := "\x7f\t;:" }, .dropped, some "\x1f/"⟩,
        ⟨transfer 18446744073709551615 "", .invalid, none⟩]⟩,
      ⟨[]⟩]
  status := .dropped
  sourceIp := some ""

/-- A network without anyone, and a cache that never fails. -/
def silence : Surroundings where
  fault _ _ := none
  send _ _ := .error (.decode "no network")
  latestNonce _ _ := .error (.decode "no network")
  block _ _ _ := .error (.decode "no network")
  lookup _ _ := .error (.decode "no network")
  now moment := ⟨moment, 0⟩
  token _ := ""

end Sample

theorem Sample.peculiar_read_back :
    Batch.parse peculiar.render = .ok peculiar ∧
      Json.decodeText BatchView.ofJson peculiar.view.toJson.render =
        .ok peculiar.view ∧
      (silence.run (Records.get alice peculiar.id)
        (silence.run (do
          let _ ← Records.put .forever alice peculiar
          Activity.request (.delete (Routes.key first.hash)))
          (.start (.memory .empty))).2).1 = .ok (some peculiar) := by
  obtain ⟨batches, views, stored⟩ := records_read_back
  refine ⟨batches _, views _, ?_⟩
  apply stored silence .forever alice peculiar (.start (.memory .empty)) _
    [⟨_, .delete (Routes.key first.hash)⟩] rfl List.nodup_nil rfl (.cons .nil)
  · intro step member same
    obtain rfl := List.mem_singleton.1 member
    exact Routes.key_ne_recordKey _ _ _ (Option.some.inj same)
  · rfl

end BatchRelay
