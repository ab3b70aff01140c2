import NetVirt.JswRuns

/-!
# Tables of addresses and of nodes

hash.c, and the hash tables of ftable.c and ctable.c. The words of a hash are mixed
reversibly: from the state behind `mix` or `final` the one before it can be computed, so
that what a block of a key contributed is lost only where the last state is cut to one word.
Addresses are compared by six octets and hashed by these, nodes are compared by thirty-six
octets and hashed by the first thirty-two, so that both kinds of table are partial maps of
what they compare.
-/

namespace NetVirt.ForwardingTables

open Jsw Tables

/-! ## hash.c -/

/-- The macro `rot` -/
def rot (x k : UInt32) : UInt32 := (x <<< k) ||| (x >>> (32 - k))

/-- The three words of the internal state, the one that is changed first. -/
abbrev Words := UInt32 × UInt32 × UInt32

/-- From line to line the words change places. -/
def turn : Words → Words
  | (x, y, z) => (y, z, x)

/-- A line of the macro `mix`: `x -= z;  x ^= rot(z,k);  z += y;` -/
def mixLine (k : UInt32) : Words → Words
  | (x, y, z) => ((x - z) ^^^ rot z k, y, z + y)

/-- Two statements of the macro `final`: `x ^= z; x -= rot(z,k);` -/
def finalLine (k : UInt32) : Words → Words
  | (x, y, z) => ((x ^^^ z) - rot z k, y, z)

/-- The lines of a macro with their constants. -/
def lines (line : UInt32 → Words → Words) (constants : List UInt32) (words : Words) : Words :=
  constants.foldl (fun words k => turn (line k words)) words

/-- The macro `mix`, on `(a,b,c)`. The next line is on `(b,c,a)`. -/
def mix (words : Words) : Words := lines mixLine [4, 6, 8, 16, 19, 4] words

/-- The macro `final`, on `(a,b,c)`. The first line is on `(c,a,b)`. -/
def final (words : Words) : Words :=
  lines finalLine [14, 11, 25, 16, 4, 14, 24] (turn (turn words))

/-- The loop of `hashword` over the words of the key, and the switch over the last ones. -/
def hashWords : Words → List UInt32 → Words
  | (a, b, c), k0 :: k1 :: k2 :: k3 :: rest =>
    hashWords (mix (a + k0, b + k1, c + k2)) (k3 :: rest)
  | (a, b, c), [k0, k1, k2] => final (a + k0, b + k1, c + k2)
  | (a, b, c), [k0, k1] => final (a + k0, b + k1, c)
  | (a, b, c), [k0] => final (a + k0, b, c)
  | words, [] => words

/-- `hashword` -/
def hashword (k : List UInt32) (initval : UInt32) : UInt32 :=
  let start : UInt32 := (0xdeadbeef : UInt32) + (UInt32.ofNat k.length <<< (2 : UInt32)) + initval
  (hashWords (start, start, start) k).2.2

theorem turn_bijective : Function.Bijective turn :=
  ⟨fun words others same => by
      obtain ⟨x, y, z⟩ := words
      obtain ⟨x', y', z'⟩ := others
      simp only [turn, Prod.mk.injEq] at same ⊢
      exact ⟨same.2.2, same.1, same.2.1⟩,
    fun words => ⟨(words.2.2, words.1, words.2.1), rfl⟩⟩

theorem xor_again (x k : UInt32) : x ^^^ k ^^^ k = x := by
  rw [UInt32.xor_assoc, UInt32.xor_self, UInt32.xor_zero]

theorem mixLine_bijective (k : UInt32) : Function.Bijective (mixLine k) := by
  refine Function.bijective_iff_has_inverse.mpr
    ⟨fun words => ((words.1 ^^^ rot (words.2.2 - words.2.1) k) + (words.2.2 - words.2.1),
      words.2.1, words.2.2 - words.2.1), fun words => ?_, fun words => ?_⟩
  · simp only [mixLine, UInt32.add_sub_cancel, UInt32.sub_add_cancel, xor_again]
  · simp only [mixLine, UInt32.add_sub_cancel, UInt32.sub_add_cancel, xor_again]

theorem finalLine_bijective (k : UInt32) : Function.Bijective (finalLine k) := by
  refine Function.bijective_iff_has_inverse.mpr
    ⟨fun words => ((words.1 + rot words.2.2 k) ^^^ words.2.2, words.2.1, words.2.2),
      fun words => ?_, fun words => ?_⟩
  · simp only [finalLine, UInt32.sub_add_cancel, xor_again]
  · simp only [finalLine, UInt32.add_sub_cancel, xor_again]

theorem lines_bijective {line : UInt32 → Words → Words}
    (each : ∀ k, Function.Bijective (line k)) (constants : List UInt32) :
    Function.Bijective (lines line constants) := by
  induction constants with
  | nil => exact Function.bijective_id
  | cons k rest inductionHypothesis =>
    exact inductionHypothesis.comp (turn_bijective.comp (each k))

theorem mix_bijective : Function.Bijective mix := lines_bijective mixLine_bijective _

theorem final_bijective : Function.Bijective final := by
  have composed : final = lines finalLine [14, 11, 25, 16, 4, 14, 24] ∘ (turn ∘ turn) := by
    funext words
    simp only [final, Function.comp_apply]
  rw [composed]
  exact (lines_bijective finalLine_bijective _).comp (turn_bijective.comp turn_bijective)

/-- What a block of words adds to the state. -/
def absorb (block : Words) : Words → Words
  | (a, b, c) => (a + block.1, b + block.2.1, c + block.2.2)

theorem absorb_bijective (block : Words) : Function.Bijective (absorb block) := by
  refine Function.bijective_iff_has_inverse.mpr
    ⟨fun words => (words.1 - block.1, words.2.1 - block.2.1, words.2.2 - block.2.2),
      fun words => ?_, fun words => ?_⟩
  · simp [absorb]
  · simp [absorb]

theorem hashWords_last (k0 k1 k2 : UInt32) :
    (fun state => hashWords state [k0]) = final ∘ absorb (k0, 0, 0) ∧
      (fun state => hashWords state [k0, k1]) = final ∘ absorb (k0, k1, 0) ∧
      (fun state => hashWords state [k0, k1, k2]) = final ∘ absorb (k0, k1, k2) := by
  refine ⟨?_, ?_, ?_⟩
  all_goals
    funext state
    simp [hashWords, absorb]

theorem hashWords_block (k0 k1 k2 k3 : UInt32) (rest : List UInt32) :
    (fun state => hashWords state (k0 :: k1 :: k2 :: k3 :: rest)) =
      (fun state => hashWords state (k3 :: rest)) ∘ (mix ∘ absorb (k0, k1, k2)) := by
  funext state
  simp [hashWords, absorb]

/-- The state that a hash ends in depends reversibly on the state that it starts from.

Proof: by recursion over the words in threes: adding words to the state can be undone, and so
can the rounds of mix and final. -/
theorem hashWords_bijective :
    ∀ words : List UInt32, Function.Bijective fun state => hashWords state words
  | [] => Function.bijective_id
  | [k0] => (hashWords_last k0 0 0).1 ▸ final_bijective.comp (absorb_bijective _)
  | [k0, k1] => (hashWords_last k0 k1 0).2.1 ▸ final_bijective.comp (absorb_bijective _)
  | [k0, k1, k2] => (hashWords_last k0 k1 k2).2.2 ▸ final_bijective.comp (absorb_bijective _)
  | k0 :: k1 :: k2 :: k3 :: rest => hashWords_block k0 k1 k2 k3 rest ▸
    (hashWords_bijective (k3 :: rest)).comp (mix_bijective.comp (absorb_bijective _))

/-! ## ftable.c and ctable.c -/

/-- The words that lie at a pointer, on a little-endian machine. -/
def wordsAt : List UInt8 → List UInt32
  | b0 :: b1 :: b2 :: b3 :: rest =>
    UInt32.ofNat (b0.toNat + b1.toNat * 2 ^ 8 + b2.toNat * 2 ^ 16 + b3.toNat * 2 ^ 24) ::
      wordsAt rest
  | _ => []

/-- `memcmp` over a number of octets: the first difference decides. -/
def memcmp : List UInt8 → List UInt8 → Nat → Int
  | x :: a, y :: b, count + 1 => if x = y then memcmp a b count else x.toNat - y.toNat
  | [], _ :: _, _ + 1 => -1
  | _ :: _, [], _ + 1 => 1
  | _, _, _ => 0

theorem memcmp_iff (a b : List UInt8) (count : Nat) :
    memcmp a b count = 0 ↔ a.take count = b.take count := by
  induction count generalizing a b with
  | zero => cases a <;> cases b <;> simp [memcmp]
  | succ count inductionHypothesis =>
    cases a with
    | nil => cases b <;> simp [memcmp]
    | cons x a =>
      cases b with
      | nil => simp [memcmp]
      | cons y b =>
        simp only [memcmp, List.take_succ_cons, List.cons.injEq]
        by_cases same : x = y
        · simp [same, inductionHypothesis]
        · have apart : x.toNat ≠ y.toNat := fun equal => same (UInt8.toNat.inj equal)
          rw [if_neg same]
          refine iff_of_false (fun zero => apart ?_) (fun both => same both.1)
          omega

section Callbacks
variable {Item : Type*}

/-- `ftable_hash`, `ftable_cmp` and `ftable_keydup`, with `session_itemdup`. -/
def ftable : Callbacks (List UInt8) Item where
  hash mac := hashword (wordsAt (mac.take 6 ++ mac.take 2)) 0
  cmp a b := memcmp a b 6
  keydup key := key.take 6
  itemdup item := item

/-- `ctable_hash`, `ctable_cmp` and `ctable_keydup`, with `session_itemdup`. -/
def ctable : Callbacks (List UInt8) Item where
  hash uuid := hashword (wordsAt (uuid.take 32)) 0
  cmp a b := memcmp a b 36
  keydup uuid := uuid.take 37
  itemdup item := item

/-- The two octets that a hash repeats are among the six that are compared. -/
theorem ftable_congruent : Congruent (ftable : Callbacks (List UInt8) Item) (List.take 6) where
  cmp key other := memcmp_iff key other 6
  hash key other same := by
    have again : key.take 2 = other.take 2 := by
      simpa [List.take_take] using congrArg (List.take 2) same
    simp only [ftable, same, again]
  keydup key := by simp [ftable, List.take_take]

/-- The last four octets that are compared are not hashed. -/
theorem ctable_congruent : Congruent (ctable : Callbacks (List UInt8) Item) (List.take 36) where
  cmp key other := memcmp_iff key other 36
  hash key other same := by
    have hashed : key.take 32 = other.take 32 := by
      simpa [List.take_take] using congrArg (List.take 32) same
    simp only [ctable, hashed]
  keydup key := by simp [ctable, List.take_take]

/-- A forwarding table is the partial map of its calls, from the six octets of an address.

Proof: the table holds for each key the stack of its items, and without NULL a stack has one
item at most: it is the map's entry. -/
theorem ftable_finds (size : Nat) (positive : 0 < size)
    (events : List (Event (List UInt8) Item))
    (present : ∀ event ∈ events, Present ftable event) :
    ∃ life, Runs.run (Jsw.step ftable) (Life.new size) events = some life ∧ ∀ key,
      jswHfind ftable life.htab key =
        (events.foldl (mapApply ftable (List.take 6)) Table.empty).find (key.take 6) ∧
      (∀ item, (jswHinsert ftable life.htab key item).1 = 1 ↔
        jswHfind ftable life.htab key = none) ∧
      ∃ code node next, jswHerase ftable life.htab key = some (code, node, next) ∧
        (code = 1 ↔ jswHfind ftable life.htab key ≠ none) :=
  run_finds ftable_congruent size positive events present

/-- A connection or access table is the partial map of its calls, from the text of a uuid. -/
theorem ctable_finds (size : Nat) (positive : 0 < size)
    (events : List (Event (List UInt8) Item))
    (present : ∀ event ∈ events, Present ctable event) :
    ∃ life, Runs.run (Jsw.step ctable) (Life.new size) events = some life ∧ ∀ uuid,
      jswHfind ctable life.htab uuid =
        (events.foldl (mapApply ctable (List.take 36)) Table.empty).find (uuid.take 36) := by
  obtain ⟨life, reached, finds⟩ := run_finds ctable_congruent size positive events present
  exact ⟨life, reached, fun uuid => (finds uuid).1⟩

end Callbacks

/-- The first session that sends from an address keeps it. -/
theorem ftable_finds_first : ∃ life, Runs.run (Jsw.step (ftable : Callbacks (List UInt8) Nat))
      (Life.new 1024) [.insert [2, 0, 0, 0, 0, 1] (some 7), .insert [2, 0, 0, 0, 0, 1] (some 8)] =
        some life ∧
      jswHfind ftable life.htab [2, 0, 0, 0, 0, 1] = some 7 := by
  obtain ⟨life, reached, finds⟩ := ftable_finds 1024 (by decide)
    [Event.insert [2, 0, 0, 0, 0, 1] (some 7), .insert [2, 0, 0, 0, 0, 1] (some 8)] (by
      simp [Present, ftable])
  exact ⟨life, reached, (finds _).1.trans rfl⟩

/-- NULL under a key is not found, and covered by the next insertion. What is erased is the
item that was found. -/
theorem ftable_holds_null : ∃ life, Runs.run (Jsw.step (ftable : Callbacks (List UInt8) Nat))
      (Life.new 4) [.insert [2, 0, 0, 0, 0, 1] none, .insert [2, 0, 0, 0, 0, 1] (some 8),
        .insert [2, 0, 0, 0, 0, 2] (some 9), .erase [2, 0, 0, 0, 0, 2]] = some life ∧
      (life.htab.stack ftable [2, 0, 0, 0, 0, 1]).map Node.item = [some 8, none] ∧
      jswHfind ftable life.htab [2, 0, 0, 0, 0, 1] = some 8 ∧
      (jswHinsert ftable life.htab [2, 0, 0, 0, 0, 1] (some 7)).1 ≠ 1 ∧
      jswHfind ftable life.htab [2, 0, 0, 0, 0, 2] = none ∧
      (jswHinsert ftable life.htab [2, 0, 0, 0, 0, 2] (some 7)).1 = 1 := by
  obtain ⟨life, reached, holds, finds⟩ := run_holds ftable_congruent 4 (by decide)
    [Event.insert [2, 0, 0, 0, 0, 1] none, .insert [2, 0, 0, 0, 0, 1] (some 8),
      .insert [2, 0, 0, 0, 0, 2] (some 9), .erase [2, 0, 0, 0, 0, 2]]
  have first : jswHfind ftable life.htab [2, 0, 0, 0, 0, 1] = some 8 := (finds _).1.trans rfl
  have second : jswHfind ftable life.htab [2, 0, 0, 0, 0, 2] = none := (finds _).1.trans rfl
  refine ⟨life, reached, (holds.items _).trans rfl, first, fun inserted => ?_, second,
    ((finds _).2 _).mpr second⟩
  have absent := ((finds _).2 _).mp inserted
  rw [first] at absent
  cases absent

/-- Of two items one was erased before the table is deleted. -/
theorem ftable_released_once : ∃ life,
    Runs.run (Jsw.step (ftable : Callbacks (List UInt8) Nat)) (Life.new 4)
      [.insert [2, 0, 0, 0, 0, 1] (some 7), .insert [2, 0, 0, 0, 0, 2] (some 8),
        .erase [2, 0, 0, 0, 0, 1]] = some life ∧
      life.created.Perm (jswHdelete life.htab ++ life.released) ∧
      life.htab.size = (jswHdelete life.htab).length ∧
      life.released = [⟨[2, 0, 0, 0, 0, 1], some 7⟩] ∧
      jswHdelete life.htab = [⟨[2, 0, 0, 0, 0, 2], some 8⟩] := by
  obtain ⟨life, reached, custody, size⟩ := run_released ftable_congruent 4 (by decide)
    [Event.insert [2, 0, 0, 0, 0, 1] (some 7), .insert [2, 0, 0, 0, 0, 2] (some 8),
      .erase [2, 0, 0, 0, 0, 1]]
  refine ⟨life, reached, custody, size, ?_, ?_⟩
  · cases reached
    rfl
  · cases reached
    rfl

/-- Two of three addresses are in one bucket; the newer one is met first. -/
theorem ftable_traversal : ∃ life,
    Runs.run (Jsw.step (ftable : Callbacks (List UInt8) Nat)) (Life.new 4)
      [.insert [2, 0, 0, 0, 0, 1] (some 7), .insert [2, 0, 0, 0, 0, 5] (some 8),
        .insert [2, 0, 0, 0, 0, 2] (some 9)] = some life ∧
      life.htab.table.map (fun slot => (chain slot).length) = [2, 1, 0, 0] ∧
      visit 3 (jswHreset life.htab) = some [some ⟨[2, 0, 0, 0, 0, 5], some 8⟩,
        some ⟨[2, 0, 0, 0, 0, 1], some 7⟩, some ⟨[2, 0, 0, 0, 0, 2], some 9⟩] := by
  obtain ⟨life, reached, holds⟩ := run_keeps ftable_congruent 4 (by decide)
    [Event.insert [2, 0, 0, 0, 0, 1] (some 7), .insert [2, 0, 0, 0, 0, 5] (some 8),
      .insert [2, 0, 0, 0, 0, 2] (some 9)]
  have nodes : life.htab.nodes = [⟨[2, 0, 0, 0, 0, 5], some 8⟩, ⟨[2, 0, 0, 0, 0, 1], some 7⟩,
      ⟨[2, 0, 0, 0, 0, 2], some 9⟩] := by
    cases reached
    rfl
  have visited := (traversal_exact holds.formed).1 (by rw [nodes]; exact List.cons_ne_nil _ _)
  rw [nodes] at visited
  refine ⟨life, reached, ?_, visited⟩
  cases reached
  rfl

end NetVirt.ForwardingTables
