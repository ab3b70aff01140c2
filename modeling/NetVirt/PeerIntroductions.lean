import NetVirt.PeerLinks
import NetVirt.SwitchSessions

/-!
# Peers are introduced once

As long as no more sessions are authenticated in a network than there are ids, every one of
them has an id of its own, and the pool has the ids that are given away. Link states are
kept by id and taken away with the session, so that they are those of the sessions that
are connected, and an id that is given away again has none.
-/

namespace NetVirt.Nvswitch

open Bitmaps Bitv Cert Introductions LinkStates LinkedLists Tables Runs

/-! ## The pool of ids -/

/-- The pool has the ids that are given away, one less each. -/
structure PoolOf (bitpool : List (BitVec 8)) (number : SessionId → Option Nat) : Prop where
  length : bitpool.length = maxNode / 8
  given : ∀ bit, bit < maxNode → (getBit bitpool bit = true ↔ ∃ s, number s = some (bit + 1))

theorem poolOf_new (number : SessionId → Option Nat) (nobody : ∀ s, number s = none) :
    PoolOf (bitpoolNew maxNode).1 number where
  length := by rw [bitpoolNew_whole maxNode (by decide) (by decide), List.length_replicate]
  given bit _ := by simp [bitpoolNew_whole maxNode (by decide) (by decide), nobody]

section Pools
variable {bitpool : List (BitVec 8)} {number : SessionId → Option Nat}
  (pool : PoolOf bitpool number)
include pool

theorem PoolOf.take (s : SessionId) (bit : Nat) (inside : bit < maxNode)
    (outside : number s = none) :
    PoolOf (setBit bitpool bit) (Function.update number s (some (bit + 1))) where
  length := by simp [pool.length]
  given tested within := by
    have stored : bit / 8 < bitpool.length := by
      rw [pool.length]
      simp only [maxNode] at inside ⊢
      omega
    rw [getBit_setBit _ _ _ stored, Bool.or_eq_true, pool.given tested within, decide_eq_true_eq]
    constructor
    · rintro (⟨t, holds⟩ | rfl)
      · have apart : t ≠ s := by
          rintro rfl
          rw [outside] at holds
          cases holds
        exact ⟨t, by simp [apart, holds]⟩
      · exact ⟨s, by simp⟩
    · rintro ⟨t, holds⟩
      by_cases own : t = s
      · simp only [own, Function.update_self, Option.some.injEq] at holds
        exact Or.inr (by omega)
      · rw [Function.update_of_ne own] at holds
        exact Or.inl ⟨t, holds⟩

theorem PoolOf.release (s : SessionId) (bit : Nat) (holds : number s = some (bit + 1))
    (alone : ∀ t, number t = some (bit + 1) → t = s) :
    PoolOf (clearBit bitpool bit) (Function.update number s none) where
  length := by simp [pool.length]
  given tested within := by
    rw [getBit_clearBit, Bool.and_eq_true, pool.given tested within, decide_eq_true_eq]
    constructor
    · rintro ⟨⟨t, other⟩, apart⟩
      have different : t ≠ s := by
        rintro rfl
        rw [holds, Option.some.injEq] at other
        exact apart (by omega)
      exact ⟨t, by simp [different, other]⟩
    · rintro ⟨t, other⟩
      by_cases own : t = s
      · simp [own] at other
      · rw [Function.update_of_ne own] at other
        refine ⟨⟨t, other⟩, ?_⟩
        rintro rfl
        exact own (alone t other)

/-- A pool whose bits are all given away has as many sessions as there are ids. -/
theorem PoolOf.full (full : ∀ bit, bit < maxNode → getBit bitpool bit = true) :
    ∃ members : List SessionId, members.Nodup ∧ members.length = maxNode ∧
      ∀ s ∈ members, number s ≠ none := by
  have owner : ∀ bit : Fin maxNode, ∃ s, number s = some (bit.val + 1) :=
    fun bit => (pool.given bit.val bit.isLt).mp (full bit.val bit.isLt)
  choose session holds using owner
  have injective : Function.Injective session := by
    intro early late same
    have numbers := holds early
    rw [same, holds late, Option.some.injEq] at numbers
    exact Fin.ext (by omega)
  refine ⟨(List.finRange maxNode).map session, (List.nodup_finRange maxNode).map injective,
    by simp, ?_⟩
  intro s inside
  obtain ⟨bit, _, rfl⟩ := List.mem_map.mp inside
  simp [holds bit]

end Pools

/-! ## The invariant -/

/-- A connected session that was authenticated in the network. -/
def LinkView.Member (view : LinkView) (v : VnetId) (s : SessionId) : Prop :=
  ∃ place, view.session s = some place ∧ place.vnetwork = some v ∧ view.passed s

/-- At most MAX_NODE sessions of the network are authenticated. -/
def LinkView.Bounded (view : LinkView) (v : VnetId) : Prop :=
  ∀ members : List SessionId, members.Nodup → (∀ s ∈ members, view.Member v s) →
    members.length ≤ maxNode

structure LinkView.Numbered (view : LinkView) (v : VnetId) : Prop where
  sound : (view.group v).Sound
  limit : ∀ numbers, view.vnet v = some numbers → numbers.linkst.val.upperLimit = maxNode
  pool : ∀ numbers, view.vnet v = some numbers → PoolOf numbers.bitpool (view.group v).number
  member : ∀ s place, view.session s = some place → place.vnetwork = some v → view.passed s →
    place.id ≠ 0 ∧ place.id.toNat ≤ maxNode
  unnumbered : ∀ s place, view.session s = some place → ¬ view.passed s → place.id = 0
  asked : ∀ call ∈ view.calls, view.passed call.1 ∧ view.passed call.2

theorem group_number (view : LinkView) (v : VnetId) (s : SessionId) :
    (view.group v).number s = (view.session s).bind (Place.number v) := rfl

/-- The numbers of a network after a session was stored or taken away. -/
theorem put_number (view : LinkView) (v : VnetId) (s : SessionId) (place : Option Place) :
    ((view.put s place).group v).number =
      Function.update (view.group v).number s (place.bind (Place.number v)) :=
  Function.comp_update (fun place : Option Place => place.bind (Place.number v)) view.session s
    place

/-- A session that was not added, or not to this network, has no number in it. -/
theorem number_none (v : VnetId) (place : Place) (alone : place.vnetwork ≠ some v ∨ place.id = 0) :
    place.number v = none := by
  refine if_neg ?_
  rintro ⟨member, added⟩
  exact alone.elim (· member) added

theorem number_some (v : VnetId) (place : Place) (member : place.vnetwork = some v)
    (added : place.id ≠ 0) : place.number v = some place.id.toNat :=
  if_pos ⟨member, added⟩

theorem number_positive (view : LinkView) (v : VnetId) (s : SessionId) (n : Nat)
    (holds : (view.group v).number s = some n) : n ≠ 0 := by
  obtain ⟨place, _, named⟩ := Option.bind_eq_some_iff.mp holds
  obtain ⟨⟨_, added⟩, number⟩ := Option.ite_none_right_eq_some.mp named
  obtain rfl := Option.some.inj number
  exact fun zero => added (BitVec.eq_of_toNat_eq (by simpa using zero))

/-- Storing a session changes no number when it had none and has none. -/
theorem put_group (view : LinkView) (v : VnetId) (s : SessionId) (place : Option Place)
    (before : (view.session s).bind (Place.number v) = none)
    (later : place.bind (Place.number v) = none) : (view.put s place).group v = view.group v := by
  have kept : ((view.put s place).group v).number = (view.group v).number := by
    rw [put_number, later, Function.update_eq_self_iff, group_number, before]
  exact congrArg (fun number => { view.group v with number := number }) kept

section Steps
variable {view : LinkView} {v : VnetId} (numbered : view.Numbered v)
include numbered

/-- A session that is connected, or finds its network, has no number yet. -/
theorem LinkView.Numbered.unadded (s : SessionId) (place : Place)
    (before : ∀ old, view.session s = some old → old.id = 0) (added : place.id = 0)
    (unpassed : ¬ view.passed s) : (view.put s (some place)).Numbered v := by
  have same : (view.put s (some place)).group v = view.group v := by
    refine put_group view v s (some place) ?_ (number_none v place (Or.inr added))
    cases found : view.session s with
    | none => rfl
    | some old => exact number_none v old (Or.inr (before old found))
  refine { numbered with
    sound := same ▸ numbered.sound
    pool := ?_
    member := ?_
    unnumbered := ?_ }
  · exact fun numbers home => same ▸ numbered.pool numbers home
  · intro t other found belongs passed
    by_cases own : t = s
    · exact absurd (own ▸ passed) unpassed
    · rw [LinkView.put_session, Function.update_of_ne own] at found
      exact numbered.member t other found belongs passed
  · intro t other found told
    by_cases own : t = s
    · rw [own, LinkView.put_session, Function.update_self, Option.some.injEq] at found
      exact found ▸ added
    · rw [LinkView.put_session, Function.update_of_ne own] at found
      exact numbered.unnumbered t other found told

/-- A session of another network, or of none, is freed. -/
theorem LinkView.Numbered.gone (s : SessionId)
    (before : (view.group v).number s = none) : (view.put s none).Numbered v := by
  have same : (view.put s none).group v = view.group v := put_group view v s none before rfl
  have stays : ∀ t other, (view.put s none).session t = some other →
      view.session t = some other := by
    intro t other found
    by_cases own : t = s
    · simp [own] at found
    · rwa [LinkView.put_session, Function.update_of_ne own] at found
  exact { numbered with
    sound := same ▸ numbered.sound
    pool := fun numbers home => same ▸ numbered.pool numbers home
    member := fun t other found => numbered.member t other (stays t other found)
    unnumbered := fun t other found => numbered.unnumbered t other (stays t other found) }

/-- Another network changes. -/
theorem LinkView.Numbered.other (w : VnetId) (numbers : Numbers) (apart : w ≠ v) :
    (view.store w numbers).Numbered v := by
  have kept : (view.store w numbers).vnet v = view.vnet v := by
    rw [LinkView.store_vnet, Function.update_of_ne (Ne.symm apart)]
  have same : (view.store w numbers).group v = view.group v := by
    unfold LinkView.group
    rw [kept]
    rfl
  exact { numbered with
    sound := same ▸ numbered.sound
    limit := fun numbers home => numbered.limit numbers (kept ▸ home)
    pool := fun numbers home => same ▸ numbered.pool numbers (kept ▸ home) }

/-- A session is authenticated in another network. -/
theorem LinkView.Numbered.passed (s : SessionId) (place : Place)
    (before : (view.group v).number s = none) (other : place.vnetwork ≠ some v) :
    ({ view.put s (some place) with passed := fun t => view.passed t ∨ t = s } :
      LinkView).Numbered v := by
  have same : (view.put s (some place)).group v = view.group v :=
    put_group view v s (some place) before (number_none v place (Or.inl other))
  constructor
  · exact same ▸ numbered.sound
  · exact numbered.limit
  · exact fun numbers home => same ▸ numbered.pool numbers home
  · intro t changed found belongs told
    by_cases own : t = s
    · simp only [own, LinkView.put_session, Function.update_self, Option.some.injEq] at found
      exact absurd (found ▸ belongs) other
    · rw [LinkView.put_session, Function.update_of_ne own] at found
      exact numbered.member t changed found belongs (told.resolve_right own)
  · intro t changed found told
    have own : t ≠ s := fun same => told (Or.inr same)
    rw [LinkView.put_session, Function.update_of_ne own] at found
    exact numbered.unnumbered t changed found fun passed => told (Or.inl passed)
  · intro call asked
    obtain ⟨first, second⟩ := numbered.asked call asked
    exact ⟨Or.inl first, Or.inl second⟩

/-- There is an id for one more session when no more are authenticated than there are ids. -/
theorem LinkView.Numbered.spare (s : SessionId) (unpassed : ¬ view.passed s) (numbers : Numbers)
    (home : view.vnet v = some numbers) (bounded : ∀ members : List SessionId, members.Nodup →
      (∀ t ∈ members, view.Member v t ∨ t = s) → members.length ≤ maxNode) :
    ∃ bit, bit < maxNode ∧ getBit numbers.bitpool bit = false ∧
      bitpoolAllocateBit numbers.bitpool maxNode =
        (setBit numbers.bitpool bit, some (BitVec.ofNat 32 bit)) := by
  have pool := numbered.pool numbers home
  rcases bitpoolAllocateBit_spec numbers.bitpool maxNode (by decide) (by decide) pool.length with
    ⟨full, _⟩ | ⟨bit, inside, clear, _, taken⟩
  · -- Every id is given away, and one more session is authenticated.
    obtain ⟨members, distinct, length, held⟩ := pool.full full
    have passed : ∀ t ∈ members, view.Member v t := by
      intro t given
      obtain ⟨number, holds⟩ := Option.ne_none_iff_exists'.mp (held t given)
      obtain ⟨other, there, named⟩ := Option.bind_eq_some_iff.mp holds
      obtain ⟨⟨belongs, added⟩, _⟩ := Option.ite_none_right_eq_some.mp named
      exact ⟨other, there, belongs,
        by_contra fun told => added (numbered.unnumbered t other there told)⟩
    have outside : s ∉ members := by
      intro given
      obtain ⟨_, _, _, told⟩ := passed s given
      exact unpassed told
    have more := bounded (s :: members) (List.nodup_cons.mpr ⟨outside, distinct⟩) (by
      simpa using fun t given => Or.inl (passed t given))
    simp only [List.length_cons, length] at more
    omega
  · exact ⟨bit, inside, clear, taken⟩

/-- An authenticated session is added to the network: it gets an id that nobody has. -/
theorem LinkView.Numbered.admitted (s : SessionId) (place : Place) (numbers : Numbers)
    (found : view.session s = some place) (member : place.vnetwork = some v)
    (unpassed : ¬ view.passed s) (home : view.vnet v = some numbers) (after : LinkView)
    (rest : after = { (view.put s (some { place with
          id := (bitpoolAllocateBit numbers.bitpool maxNode).2.getD place.id + 1 })).store v
        { numbers with bitpool := (bitpoolAllocateBit numbers.bitpool maxNode).1 } with
      passed := fun t => view.passed t ∨ t = s })
    (bounded : after.Bounded v) : after.Numbered v := by
  obtain ⟨bit, inside, clear, taken⟩ := numbered.spare s unpassed numbers home (by
    intro members distinct held
    refine bounded members distinct fun t given => ?_
    rw [rest]
    by_cases own : t = s
    · subst own
      exact ⟨_, Function.update_self t _ view.session, member, Or.inr rfl⟩
    · obtain ⟨other, there, belongs, told⟩ := (held t given).resolve_right own
      exact ⟨other, (Function.update_of_ne own _ view.session).trans there, belongs, Or.inl told⟩)
  simp only [taken, Option.getD_some] at rest
  have id : (BitVec.ofNat 32 bit + 1).toNat = bit + 1 := by
    simp only [maxNode] at inside
    have same : (BitVec.ofNat 32 bit).toNat = bit := by
      rw [BitVec.toNat_ofNat]
      omega
    rw [Bitv.toNat_succ _ (by omega), same]
  have added : BitVec.ofNat 32 bit + 1 ≠ 0 := by
    intro zero
    rw [zero] at id
    cases id
  have outside : (view.group v).number s = none := by
    rw [group_number, found]
    exact number_none v place (Or.inr (numbered.unnumbered s place found unpassed))
  have number : (after.group v).number =
      Function.update (view.group v).number s (some (bit + 1)) := by
    rw [← id, ← number_some v { place with id := BitVec.ofNat 32 bit + 1 } member added, rest]
    exact put_number view v s _
  have pool := numbered.pool numbers home
  have unused : ∀ t, (view.group v).number t ≠ some (bit + 1) := by
    intro t holds
    rw [(pool.given bit inside).mpr ⟨t, holds⟩] at clear
    cases clear
  have alone : ∀ call ∈ view.calls, call.1 ≠ s ∧ call.2 ≠ s := by
    intro call asked
    obtain ⟨first, second⟩ := numbered.asked call asked
    exact ⟨fun same => unpassed (same ▸ first), fun same => unpassed (same ▸ second)⟩
  have stored : after.vnet v = some { numbers with bitpool := setBit numbers.bitpool bit } := by
    rw [rest]
    exact Function.update_self ..
  have group : after.group v = { view.group v with
      number := Function.update (view.group v).number s (some (bit + 1)) } := by
    refine Introductions.Group.ext number ?_ (by rw [rest]; rfl)
    funext n m
    simp [LinkView.group, stored, home]
  have stays : ∀ t other, t ≠ s → after.session t = some other → view.session t = some other := by
    intro t other apart there
    rw [rest] at there
    exact (Function.update_of_ne apart _ view.session).symm.trans there
  have own : after.session s = some { place with id := BitVec.ofNat 32 bit + 1 } := by
    rw [rest]
    exact Function.update_self ..
  have passed : ∀ t, after.passed t ↔ view.passed t ∨ t = s := by
    intro t
    rw [rest]
  constructor
  · rw [group]
    exact numbered.sound.admit s (bit + 1) outside unused alone
  · intro kept there
    rw [stored, Option.some.injEq] at there
    exact there ▸ numbered.limit numbers home
  · intro kept there
    rw [stored, Option.some.injEq] at there
    rw [number, ← there]
    exact pool.take s bit inside outside
  · intro t other there belongs told
    by_cases same : t = s
    · rw [same, own, Option.some.injEq] at there
      subst there
      exact ⟨added, by rw [id]; exact inside⟩
    · exact numbered.member t other (stays t other same there) belongs
        (((passed t).mp told).resolve_right same)
  · intro t other there told
    have before := fun told' => told ((passed t).mpr told')
    exact numbered.unnumbered t other (stays t other (fun same => before (Or.inr same)) there)
      (fun told' => before (Or.inl told'))
  · intro call asked
    rw [rest] at asked
    obtain ⟨first, second⟩ := numbered.asked call asked
    exact ⟨(passed _).mpr (Or.inl first), (passed _).mpr (Or.inl second)⟩

/-- Two authenticated sessions of the network are introduced. -/
theorem LinkView.Numbered.introduced (a b : SessionId) (placeA placeB : Place) (numbers : Numbers)
    (now : Nat) (foundA : view.session a = some placeA)
    (foundB : view.session b = some placeB) (memberA : placeA.vnetwork = some v)
    (memberB : placeB.vnetwork = some v) (passedA : view.passed a) (passedB : view.passed b)
    (home : view.vnet v = some numbers)
    (down : numbers.linkst.joined placeA.id.toNat placeB.id.toNat ≠ 1) (after : LinkView)
    (rest : after = { view.store v { numbers with
        linkst := (numbers.linkst.join placeA.id.toNat placeB.id.toNat now).1 } with
      calls := view.calls ++ [(a, b)] }) : after.Numbered v := by
  obtain ⟨addedA, highA⟩ := numbered.member a placeA foundA memberA passedA
  obtain ⟨addedB, highB⟩ := numbered.member b placeB foundB memberB passedB
  have limit := numbered.limit numbers home
  have positive : ∀ id : BitVec 32, id ≠ 0 → 1 ≤ id.toNat := by
    intro id added
    have nonzero : id.toNat ≠ 0 := fun zero => added (BitVec.eq_of_toNat_eq (by simpa using zero))
    omega
  obtain ⟨kept, links⟩ := numbers.linkst.join_iff placeA.id.toNat placeB.id.toNat now
    (positive _ addedA) (positive _ addedB) (limit ▸ highA) (limit ▸ highB)
  have holdsA : (view.group v).number a = some placeA.id.toNat := by
    rw [group_number, foundA]
    exact number_some v placeA memberA addedA
  have holdsB : (view.group v).number b = some placeB.id.toNat := by
    rw [group_number, foundB]
    exact number_some v placeB memberB addedB
  have stored : after.vnet v = some { numbers with
      linkst := (numbers.linkst.join placeA.id.toNat placeB.id.toNat now).1 } := by
    rw [rest]
    exact Function.update_self ..
  have group : after.group v = { view.group v with
      linked := (after.group v).linked
      made := (view.group v).made ++ [(a, b)] } := by
    rw [rest]
    rfl
  have number : (after.group v).number = (view.group v).number := by rw [group]
  constructor
  · rw [group]
    refine numbered.sound.meet a b _ _ holdsA holdsB ?_ _ fun n m => ?_
    · simpa [LinkView.group, home] using down
    · simp [LinkView.group, stored, home, links]
  · intro changed there
    rw [stored, Option.some.injEq] at there
    exact there ▸ kept.trans limit
  · intro changed there
    rw [stored, Option.some.injEq] at there
    rw [number, ← there]
    have pool := numbered.pool numbers home
    exact pool
  · rw [rest]
    exact numbered.member
  · rw [rest]
    exact numbered.unnumbered
  · intro call asked
    rw [rest] at asked ⊢
    rcases List.mem_append.mp asked with old | new
    · exact numbered.asked call old
    · obtain rfl := List.mem_singleton.mp new
      exact ⟨passedA, passedB⟩

/-- Two sessions of another network are introduced. -/
theorem LinkView.Numbered.elsewhere (a b : SessionId) (passedA : view.passed a)
    (passedB : view.passed b) (outside : (view.group v).number a = none) :
    ({ view with calls := view.calls ++ [(a, b)] } : LinkView).Numbered v where
  sound := numbered.sound.elsewhere a b (Or.inl outside)
  limit := numbered.limit
  pool := numbered.pool
  member := numbered.member
  unnumbered := numbered.unnumbered
  asked call asked := by
    rcases List.mem_append.mp asked with old | new
    · exact numbered.asked call old
    · obtain rfl := List.mem_singleton.mp new
      exact ⟨passedA, passedB⟩

/-- A session of the network leaves it. Its links go with it, and its id is given back. -/
theorem LinkView.Numbered.left (s : SessionId) (place : Place) (numbers : Numbers)
    (found : view.session s = some place) (member : place.vnetwork = some v)
    (home : view.vnet v = some numbers) (after : LinkView)
    (rest : after = (view.put s none).store v
      { linkst := (numbers.linkst.disjoin place.id.toNat).1
        bitpool := (bitpoolReleaseBit numbers.bitpool maxNode (place.id - 1)).1 }) :
    after.Numbered v := by
  have limit := numbered.limit numbers home
  have pool := numbered.pool numbers home
  obtain ⟨kept, links⟩ := numbers.linkst.disjoin_iff place.id.toNat
  have stored : after.vnet v = some
      { linkst := (numbers.linkst.disjoin place.id.toNat).1
        bitpool := (bitpoolReleaseBit numbers.bitpool maxNode (place.id - 1)).1 } := by
    rw [rest]
    exact Function.update_self ..
  have holds : (view.group v).number s = if place.id = 0 then none else some place.id.toNat := by
    rw [group_number, found]
    split
    · next zero => exact number_none v place (Or.inr zero)
    · next added => exact number_some v place member added
  have number : (after.group v).number = Function.update (view.group v).number s none := by
    rw [rest]
    exact put_number view v s none
  have group : after.group v = { view.group v with
      number := Function.update (view.group v).number s none
      linked := (after.group v).linked } := Introductions.Group.ext number rfl (by rw [rest]; rfl)
  have stays : ∀ t other, after.session t = some other → view.session t = some other := by
    intro t other there
    rw [rest] at there
    by_cases own : t = s
    · simp [own] at there
    · exact (Function.update_of_ne own _ view.session).symm.trans there
  constructor
  · rw [group]
    refine numbered.sound.leave s _ fun n m => ?_
    simp only [LinkView.group, stored, Option.some.injEq, exists_eq_left', links, home]
    refine and_congr_right fun linked => ?_
    -- A session without a number leaves no link, as there is none with the number 0.
    obtain ⟨p, q, holdsP, holdsQ⟩ := numbered.sound.held n m ⟨numbers, home, linked⟩
    have positive := number_positive view v p n holdsP
    have positive' := number_positive view v q m holdsQ
    have own : ((view.session s).bind (Place.number v)) =
        if place.id = 0 then none else some place.id.toNat := holds
    simp only [Function.comp_apply, own]
    split
    · next zero => simp [zero, positive, positive']
    · simp [eq_comm]
  · intro changed there
    rw [stored, Option.some.injEq] at there
    exact there ▸ kept.trans limit
  · intro changed there
    rw [stored, Option.some.injEq] at there
    rw [number, ← there]
    by_cases zero : place.id = 0
    · -- The id 0 is none of the pool's.
      rw [if_pos zero] at holds
      rw [zero, ← holds, Function.update_eq_self]
      exact pool
    · have passed : view.passed s :=
        by_contra fun told => zero (numbered.unnumbered s place found told)
      have high := (numbered.member s place found member passed).2
      have nonzero : place.id.toNat ≠ 0 :=
        fun same => zero (BitVec.eq_of_toNat_eq (by simpa using same))
      have bit : (place.id - 1).toNat = place.id.toNat - 1 :=
        Bitv.toNat_pred place.id (Nat.pos_of_ne_zero nonzero)
      have back : place.id.toNat - 1 + 1 = place.id.toNat := by omega
      rw [if_neg zero] at holds
      simp only [bitpoolReleaseBit, bit, if_pos (show place.id.toNat - 1 < maxNode by omega)]
      refine pool.release s _ (by rw [back]; exact holds) fun t other => ?_
      rw [back] at other
      exact numbered.sound.injective t s _ other holds
  · intro t other there
    rw [rest]
    exact numbered.member t other (stays t other there)
  · intro t other there
    rw [rest]
    exact numbered.unnumbered t other (stays t other there)
  · rw [rest]
    exact numbered.asked

/-- A new network has no sessions, no links and all its ids. -/
theorem LinkView.Numbered.created (id uuid : List UInt8) (absent : view.vnet v = none)
    (empty : ∀ s place, view.session s = some place → place.vnetwork ≠ some v) :
    (view.store v (vnetworkNew id uuid).numbers).Numbered v := by
  have nobody : ∀ s, (view.group v).number s = none := by
    intro s
    rw [group_number, Option.bind_eq_none_iff]
    exact fun place found => number_none v place (Or.inl (empty s place found))
  have stored : (view.store v (vnetworkNew id uuid).numbers).vnet v =
      some (vnetworkNew id uuid).numbers := Function.update_self ..
  have group : (view.store v (vnetworkNew id uuid).numbers).group v = view.group v := by
    refine Introductions.Group.ext rfl ?_ rfl
    funext n m
    simp only [LinkView.group, stored, absent, Option.some.injEq, exists_eq_left', reduceCtorEq,
      false_and, exists_false, eq_iff_iff, iff_false]
    exact joined_new maxNode timeoutSec _ n m
  refine { numbered with
    sound := group ▸ numbered.sound
    limit := ?_
    pool := ?_ }
  · intro numbers there
    rw [stored, Option.some.injEq] at there
    exact there ▸ rfl
  · intro numbers there
    rw [stored, Option.some.injEq] at there
    rw [group, ← there]
    exact poolOf_new _ nobody

/-- Each step keeps the ids of a network apart, as long as there are enough of them. -/
theorem LinkView.Numbered.step (after : LinkView) (taken : LinkStep view after)
    (bounded : after.Bounded v) : after.Numbered v := by
  have elsewhere : ∀ s place w, view.session s = some place → place.vnetwork = some w → w ≠ v →
      (view.group v).number s = none := by
    intro s place w found member apart
    rw [group_number, found]
    exact number_none v place (Or.inl (by simp [member, apart]))
  cases taken with
  | same rest => exact rest ▸ numbered
  | opened s fresh unpassed rest =>
    rw [rest]
    exact numbered.unadded s _ (fun old there => by simp [fresh] at there) rfl unpassed
  | placed s place w found unpassed rest =>
    have zero := numbered.unnumbered s place found unpassed
    rw [rest]
    refine numbered.unadded s _ (fun old there => ?_) zero unpassed
    rw [found, Option.some.injEq] at there
    exact there ▸ zero
  | admitted s place w numbers found member unpassed home rest =>
    by_cases own : w = v
    · subst own
      exact numbered.admitted s place numbers found member unpassed home after rest bounded
    · rw [rest]
      exact (numbered.passed s _ (elsewhere s place w found member own)
        (by simp [member, own])).other w _ own
  | introduced a b placeA placeB w numbers now foundA foundB memberA memberB passedA passedB home
      down rest =>
    by_cases own : w = v
    · subst own
      exact numbered.introduced a b placeA placeB numbers now foundA foundB memberA memberB
        passedA passedB home down after rest
    · rw [rest]
      exact (numbered.other w _ own).elsewhere a b passedA passedB
        (elsewhere a placeA w foundA memberA own)
  | left s place w numbers found member home rest =>
    by_cases own : w = v
    · subst own
      exact numbered.left s place numbers found member home after rest
    · rw [rest]
      exact (numbered.gone s (elsewhere s place w found member own)).other w _ own
  | freed s place found alone rest =>
    rw [rest]
    refine numbered.gone s ?_
    rw [group_number, found]
    exact number_none v place (Or.inl (by simp [alone]))
  | created w id uuid absent empty rest =>
    rw [rest]
    by_cases own : w = v
    · subst own
      exact numbered.created id uuid absent empty
    · exact numbered.other w _ own

end Steps

/-! ## Runs -/

/-- At most MAX_NODE authenticated sessions of the network are connected. -/
def Bounded (switch : Switch) (v : VnetId) : Prop :=
  ∀ members : List SessionId, members.Nodup → (∀ s ∈ members, Member switch v s) →
    members.length ≤ maxNode

theorem member_viewed (switch : Switch) (v : VnetId) (s : SessionId) :
    switch.linkView.Member v s ↔ Member switch v s := by
  constructor
  · rintro ⟨place, viewed, belongs, passed⟩
    obtain ⟨session, found, rfl⟩ := Option.map_eq_some_iff.mp viewed
    exact ⟨session, found, belongs, passed⟩
  · rintro ⟨session, found, belongs, passed⟩
    exact ⟨session.place, session_viewed found, belongs, passed⟩

theorem bounded_viewed (switch : Switch) (v : VnetId) :
    switch.linkView.Bounded v ↔ Bounded switch v := by
  simp only [LinkView.Bounded, Bounded, member_viewed]

theorem initial_numbered_ids (v : VnetId) : Switch.initial.linkView.Numbered v where
  sound :=
    { injective := fun p q n holds => by cases holds
      held := fun n m linked => by
        obtain ⟨_, home, _⟩ := linked
        cases home
      exact := fun p q n m holds => by cases holds
      once := fun p q _ holds => absurd rfl holds }
  limit numbers home := by cases home
  pool numbers home := by cases home
  member s place found := by cases found
  unnumbered s place found := by cases found
  asked call inside := by cases inside

section Runs
variable (v : VnetId) (events : List Event) (switch : Switch)
  (calm : ∀ event ∈ events, ∀ uuid, event ≠ .delNetwork uuid)
  (bounded : ∀ past, past <+: events → ∀ earlier, run step Switch.initial past = some earlier →
    Bounded earlier v)
  (reached : run step Switch.initial events = some switch)
include calm bounded reached

theorem reachable_numbered : Inv switch ∧ switch.linkView.Numbered v := by
  refine invariant_under step (fun state event => (∀ uuid, event ≠ .delNetwork uuid) ∧
      ∀ next, step state event = some next → Bounded next v)
    (fun state => Inv state ∧ state.linkView.Numbered v) ?_ Switch.initial switch events
    ⟨initial_inv, initial_numbered_ids v⟩ ?_ reached
  · rintro state event next ⟨inv, numbered⟩ ⟨allowed, within⟩ taken
    refine ⟨step_inv state event next inv taken, ?_⟩
    exact numbered.step next.linkView (link_step state next inv event allowed taken)
      ((bounded_viewed next v).mpr (within next taken))
  · rw [meets_iff_forall]
    intro past event within state early
    refine ⟨calm event (within.subset (by simp)), fun next taken => ?_⟩
    exact bounded (past ++ [event]) within next
      (run_extend step Switch.initial state next past event early taken)

end Runs

/-- The unicast branch forwards the frame of a session from one session of its network to
another one. -/
def Unicasts (switch : Switch) (v : VnetId) (s : SessionId) (frame : List UInt8)
    (source target : SessionId) : Prop :=
  ∃ session learned vnet, switch.sessions s = some session ∧ session.state = .authed ∧
    session.vnetwork = some v ∧
    learn switch s (inetGetMacAddrSrc frame) = some (learned, source) ∧
    learned.vnets v = some vnet ∧ vnet.ftable.find (inetGetMacAddrDst frame) = some target ∧
    target ≠ source ∧ inetGetMacAddrType (inetGetMacAddrDst frame) = .unicast

/-- In that branch a step is an introduction, after the source is learned. -/
theorem unicasts_introduces (switch after : Switch) (v : VnetId) (s : SessionId) (env : Env)
    (frame : List UInt8) (source target : SessionId)
    (unicasts : Unicasts switch v s frame source target)
    (taken : step switch (.input s env (.ethernet frame)) = some after) :
    ∃ learned, learn switch s (inetGetMacAddrSrc frame) = some (learned, source) ∧
      introduce (learned.netSendMsg target (.ethernet frame)) source target env.now env.rand =
        some after := by
  obtain ⟨session, learned, vnet, found, authed, member, learning, home, bound, apart, unicast⟩ :=
    unicasts
  refine ⟨learned, learning, ?_⟩
  obtain ⟨own, present, ⟨purged, _⟩ | ⟨_, dispatched⟩⟩ := input_cases _ _ _ _ _ taken
  · obtain rfl := Option.some.inj (found.symm.trans present)
    rw [authed] at purged
    cases purged
  · obtain ⟨own, again, ⟨unauthed, _⟩ | ⟨w, network, middle, first, _, _, within, learns, there,
      cases⟩⟩ := forwardEthernet_cases _ _ _ _ _ _ dispatched
    · obtain rfl := Option.some.inj (found.symm.trans again)
      exact absurd authed unauthed
    · obtain rfl := Option.some.inj (found.symm.trans again)
      obtain rfl := Option.some.inj (member.symm.trans within)
      obtain ⟨rfl, rfl⟩ := Prod.mk.inj (Option.some.inj (learning.symm.trans learns))
      obtain rfl := Option.some.inj (home.symm.trans there)
      rcases cases with ⟨loop, _⟩ | ⟨known, same, _, _, introduced⟩ | ⟨_, _, flooded, _⟩
      · exact absurd (Option.some.inj (bound.symm.trans loop)) apart
      · obtain rfl := Option.some.inj (bound.symm.trans same)
        exact introduced
      · rcases flooded with unknown | other
        · rw [bound] at unknown
          cases unknown
        · exact absurd unicast other

/-- The unicast branch introduces the two unless they have been introduced. -/
theorem unicasts_calls (switch after : Switch) (v : VnetId) (s : SessionId) (env : Env)
    (frame : List UInt8) (source target : SessionId) (inv : Inv switch)
    (numbered : switch.linkView.Numbered v) (unicasts : Unicasts switch v s frame source target)
    (taken : step switch (.input s env (.ethernet frame)) = some after) :
    p2pRequests after.sent =
      if ∃ call ∈ p2pRequests switch.sent, Between source target call then p2pRequests switch.sent
      else p2pRequests switch.sent ++ [(source, target)] := by
  obtain ⟨learned, learning, introduced⟩ :=
    unicasts_introduces switch after v s env frame source target unicasts taken
  obtain ⟨session, middle, vnet, found, authed, member, learns, home, bound, _, _⟩ := unicasts
  obtain ⟨rfl, _⟩ := Prod.mk.inj (Option.some.inj (learning.symm.trans learns))
  obtain ⟨⟨own, there, belongs, passed⟩, ⟨other, present, within, told⟩⟩ :=
    unicast_members switch learned inv s source target session v vnet frame found authed member
      learning home bound
  have same := learn_links switch learned s source _ learning
  have sent := linkView_send learned target (.ethernet frame) (by simp [Outgoing.Aside]) (by simp)
  have calls : p2pRequests switch.sent = learned.linkView.calls :=
    congrArg LinkView.calls same.symm
  rw [← same] at numbered
  -- The link of the two is up exactly when they have been introduced.
  have holds : ∀ t changed, learned.sessions t = some changed → changed.vnetwork = some v →
      Passed learned t → (learned.linkView.group v).number t = some changed.id.toNat := by
    intro t changed viewed member passed
    rw [group_number, session_viewed viewed]
    exact number_some v changed.place member
      (numbered.member t changed.place (session_viewed viewed) member passed).1
  have up : (learned.linkView.group v).linked own.id.toNat other.id.toNat ↔
      ∃ call ∈ learned.linkView.calls, Between source target call :=
    numbered.sound.exact source target _ _ (holds source own there belongs passed)
      (holds target other present within told)
  have linked : (learned.linkView.group v).linked own.id.toNat other.id.toNat ↔
      vnet.linkst.joined own.id.toNat other.id.toNat = 1 := by
    simp [LinkView.group, vnet_viewed home, VNetwork.numbers]
  obtain ⟨sessionSrc, sessionDst, w, network, here, beyond, placed, stored, cases⟩ :=
    introduce_links _ _ _ _ _ _ introduced
  obtain rfl := Option.some.inj (there.symm.trans here)
  obtain rfl := Option.some.inj (present.symm.trans beyond)
  obtain rfl := Option.some.inj (belongs.symm.trans placed)
  obtain rfl := Option.some.inj (home.symm.trans stored)
  rw [calls]
  rcases cases with ⟨joined, rfl⟩ | ⟨down, rest⟩
  · rw [if_pos (up.mp (linked.mpr joined))]
    exact congrArg LinkView.calls sent
  · rw [if_neg fun met => down (linked.mp (up.mpr met))]
    have later := congrArg LinkView.calls rest
    rw [sent] at later
    exact later

/-- In every run without del-network in which the authenticated sessions of a network are no
more than there are ids, two sessions of it are introduced at most once while both of them
are connected. A session that is added to the network has no link, and the unicast branch
introduces two sessions exactly when they have not been introduced.

Proof: in every state of such a run the ids of the members are distinct numbers, and two
numbers are linked exactly when a request between their sessions was sent. The unicast branch
looks at the link and makes it; a new session has a number that nobody was introduced under.
-/
theorem peers_introduced_once (v : VnetId) (events : List Event) (switch : Switch)
    (calm : ∀ event ∈ events, ∀ uuid, event ≠ .delNetwork uuid)
    (bounded : ∀ past, past <+: events → ∀ earlier, run step Switch.initial past = some earlier →
      Bounded earlier v)
    (reached : run step Switch.initial events = some switch) :
    (∀ a b, a ≠ b → Member switch v a → Member switch v b →
      (p2pRequests switch.sent).countP (Between a b) ≤ 1) ∧
    (∀ past s cert before, events = past ++ [.secure s cert] →
      run step Switch.initial past = some before → ¬ Member before v s → Member switch v s →
      ∀ session vnet, switch.sessions s = some session → switch.vnets v = some vnet →
        ∀ other, vnet.linkst.joined session.id.toNat other ≠ 1) ∧
    ∀ s env frame source target after, Unicasts switch v s frame source target →
      step switch (.input s env (.ethernet frame)) = some after →
      p2pRequests after.sent =
        if ∃ call ∈ p2pRequests switch.sent, Between source target call then
          p2pRequests switch.sent
        else p2pRequests switch.sent ++ [(source, target)] := by
  obtain ⟨inv, numbered⟩ := reachable_numbered v events switch calm bounded reached
  have named : ∀ t, Member switch v t → ∃ session, switch.sessions t = some session ∧
      (switch.linkView.group v).number t = some session.id.toNat := by
    rintro t ⟨session, found, member, passed⟩
    refine ⟨session, found, ?_⟩
    rw [group_number, session_viewed found]
    exact number_some v session.place member
      (numbered.member t session.place (session_viewed found) member passed).1
  refine ⟨?_, ?_, ?_⟩
  · intro a b apart memberA memberB
    obtain ⟨sessionA, _, holdsA⟩ := named a memberA
    obtain ⟨sessionB, _, holdsB⟩ := named b memberB
    exact numbered.sound.once a b apart (Option.ne_none_iff_exists'.mpr ⟨_, holdsA⟩)
      (Option.ne_none_iff_exists'.mpr ⟨_, holdsB⟩)
  · rintro past s cert before rfl early outside member session vnet found home other joined
    obtain ⟨invBefore, numberedBefore⟩ := reachable_numbered v past before
      (fun event inside => calm event (List.mem_append_left _ inside))
      (fun older within => bounded older (within.trans (List.prefix_append _ _))) early
    obtain ⟨middle, stopped, taken⟩ := run_snoc step Switch.initial switch past _ reached
    obtain rfl := Option.some.inj (early.symm.trans stopped)
    rcases onSecure_links before switch invBefore s cert taken with
      same | ⟨place, w, numbers, _, _, unpassed, _, rest⟩
    · refine outside ((member_viewed before v s).mp ?_)
      rw [← same]
      exact (member_viewed switch v s).mpr member
    · -- Nobody has been introduced to the session.
      obtain ⟨again, there, holds⟩ := named s member
      obtain rfl := Option.some.inj (found.symm.trans there)
      have linked : (switch.linkView.group v).linked session.id.toNat other :=
        ⟨vnet.numbers, vnet_viewed home, joined⟩
      obtain ⟨_, q, _, holdsQ⟩ := numbered.sound.held _ _ linked
      obtain ⟨call, inside, between⟩ := (numbered.sound.exact s q _ _ holds holdsQ).mp linked
      have calls : switch.linkView.calls = before.linkView.calls := by rw [rest]; rfl
      obtain ⟨first, second⟩ := numberedBefore.asked call (calls ▸ inside)
      rcases between with rfl | rfl
      · exact unpassed first
      · exact unpassed second
  · intro s env frame source target after unicasts taken
    exact unicasts_calls switch after v s env frame source target inv numbered unicasts taken

/-- A run that is not longer than there are ids has enough of them. -/
theorem short_bounded (v : VnetId) (events : List Event) (switch : Switch)
    (short : events.length ≤ maxNode) (reached : run step Switch.initial events = some switch) :
    Bounded switch v := by
  obtain ⟨inv, accepted⟩ := history_invariant step
    (fun past switch => Inv switch ∧ switch.opened.length ≤ past.length) Switch.initial
    (fun past state event next _ holds taken => by
      refine ⟨step_inv state event next holds.1 taken, ?_⟩
      rcases step_opens state next event holds.1 taken with same | ⟨s, more⟩
      · rw [same, List.length_append]
        exact Nat.le_add_right_of_le holds.2
      · rw [more, List.length_append]
        exact Nat.succ_le_succ holds.2)
    switch events ⟨initial_inv, Nat.le_refl 0⟩ reached
  intro members distinct held
  have opened : members ⊆ switch.opened := by
    intro s inside
    obtain ⟨session, found, _⟩ := held s inside
    exact (inv.sessions s session found).opened
  have fewer := (distinct.subperm opened).length_le
  omega

/-- Two sessions send a frame to each other, after the first has broadcast one. -/
def peersRun : List Event :=
  let frame (dst src : UInt8) : Message :=
    .ethernet (List.replicate 6 dst ++ List.replicate 6 src ++ [8, 0])
  let env : Env := { now := 0, rand := 0 }
  sampleNetwork [0x61, 0x62] ++ sampleJoin 1 0x61 ++ sampleJoin 2 0x62 ++
    [.input 1 env (frame 0xff 2), .input 2 env (frame 2 4), .input 1 env (frame 4 2)]

def peersSwitch : Switch := (run step Switch.initial peersRun).get (by decide)

theorem peersRun_introduces : p2pRequests peersSwitch.sent = [(2, 1)] ∧
    (Member peersSwitch 0 1 ∧ Member peersSwitch 0 2) ∧
    (p2pRequests peersSwitch.sent).countP (Between 1 2) ≤ 1 := by
  have told : (1, .authResponse .success) ∈ peersSwitch.sent ∧
      (2, .authResponse .success) ∈ peersSwitch.sent := by decide
  have both : Member peersSwitch 0 1 ∧ Member peersSwitch 0 2 :=
    ⟨⟨(peersSwitch.sessions 1).get (by decide), (Option.some_get _).symm, by decide, told.1⟩,
      ⟨(peersSwitch.sessions 2).get (by decide), (Option.some_get _).symm, by decide, told.2⟩⟩
  refine ⟨by decide, both, ?_⟩
  refine (peers_introduced_once 0 peersRun peersSwitch
    (by simp [peersRun, sampleNetwork, sampleJoin, sampleAsk]) ?_ (Option.some_get _).symm).1
    1 2 (by decide) both.1 both.2
  intro past within earlier reached
  exact short_bounded 0 past earlier (within.length_le.trans (by decide)) reached

end NetVirt.Nvswitch
