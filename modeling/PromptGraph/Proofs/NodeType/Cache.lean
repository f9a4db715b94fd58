/-
The cache of a server's table, over whole runs: fetches, refreshes and
invalidations with anything in between that the clock, the server and
others who use the store may do, also while an answer is awaited.

What one operation does is said once, by cases (`consult_cases`,
`ask_cases`), and everything else is read off:

- it fails and leaves the cache as it was, or it leaves the table that it
  hands out in memory (`Scene.reply_cases`);
- it puts nothing into the store but what the server has just said, and
  that only if it can be read (`Scene.step_store`);
- a table in memory stays there until it is dropped or replaced
  (`Scene.run_table`), and while it is there neither the server nor the
  store is asked (`Scene.fetched_of_table`).

All of it holds at every moment of every run, since a run leaves the key
of the cache and its idea of youth alone (`Scene.run_fixed`).
-/
import PromptGraph.NodeType.Cache

namespace PromptGraph.Cache

variable {ε : Type}

-- ==== consulting

/-- The record of the cache's key is young and can be read as `t`. -/
def Holds (c : Cache) (now : Int) (r : Record) (t : NodeTable) : Prop :=
  c.stored = some (.ok r) ∧ c.isYoung now r = true
    ∧ NodeType.parseTable r.raw = .ok t

variable {t : NodeTable} {c : Cache}

theorem consult_of_table (h : c.table = some t) (now : Int) :
    c.consult now = ⟨c, .table t, []⟩ := by
  unfold consult
  rw [h]

/-- Everything that a look into memory and store can yield. -/
theorem consult_cases (c : Cache) (now : Int) :
    (∃ t, c.table = some t ∧ c.consult now = ⟨c, .table t, []⟩)
    ∨ (∃ r t log, c.table = none ∧ c.Holds now r t
        ∧ c.consult now = ⟨{ c with table := some t }, .table t, log⟩)
    ∨ (∃ old log, c.table = none ∧ (¬ ∃ r t, c.Holds now r t)
        ∧ c.consult now = ⟨c, .nothing old, log⟩) := by
  cases htable : c.table with
  | some t => exact .inl ⟨t, rfl, consult_of_table htable now⟩
  | none =>
      refine .inr ?_
      unfold consult
      rw [htable]
      cases hstored : c.stored with
      | none =>
          refine .inr ⟨_, _, rfl, ?_, rfl⟩
          rintro ⟨r, t, hr, -, -⟩
          rw [hstored] at hr
          cases hr
      | some found =>
          cases found with
          | error missing =>
              have hno : ¬ ∃ r t, c.Holds now r t := by
                rintro ⟨r, t, hr, -, -⟩
                rw [hstored] at hr
                cases hr
              cases missing with
              | absent => exact .inr ⟨_, _, rfl, hno, rfl⟩
              | failed reason => exact .inr ⟨_, _, rfl, hno, rfl⟩
          | ok r =>
              dsimp only
              split
              · next hyoung =>
                split
                · next t ht =>
                  exact .inl ⟨r, t, _, rfl, ⟨hstored, hyoung, ht⟩, rfl⟩
                · next e he =>
                  refine .inr ⟨_, _, rfl, ?_, rfl⟩
                  rintro ⟨r', t, hr, -, ht⟩
                  rw [hstored] at hr
                  cases hr
                  rw [he] at ht
                  cases ht
              · next hold =>
                refine .inr ⟨_, _, rfl, ?_, rfl⟩
                rintro ⟨r', t, hr, hyoung, -⟩
                rw [hstored] at hr
                cases hr
                exact hold hyoung

-- ==== asking

/-- The store once a record is put into it, if there is one. -/
def storeWith (c : Cache) (r : Record) : Option Store :=
  c.store.map fun s => (s.put c.key r).1

theorem keep_cache (c : Cache) (now : Int) (raw : String) (t : NodeTable) :
    (c.keep now raw t : Received ε).cache
      = { c with store := c.storeWith ⟨raw, now⟩, table := some t } := by
  have hstore : (c.store.map (·.put c.key ⟨raw, now⟩)).map Prod.fst
      = c.storeWith ⟨raw, now⟩ := Option.map_map _ _ _
  rw [← hstore]
  rfl

/-- Everything that can come of asking the server: a failure that changes
nothing, an old table that stands in, or a new one, which is also put
into the store. -/
theorem ask_cases (c : Cache) (describe : ε → String) (now : Int)
    (old : Option Record) (server : Option (Except ε String))
    (log : List Log.Line) :
    let r := c.ask describe now old server log
    r.asked = server.isSome
    ∧ ((∃ e, r.result = .error e ∧ r.cache = c)
      ∨ (∃ t, r.result = .ok t ∧ r.cache = { c with table := some t })
      ∨ ∃ raw t, server = some (.ok raw) ∧ NodeType.parseTable raw = .ok t
          ∧ r.result = .ok t
          ∧ r.cache = { c with store := c.storeWith ⟨raw, now⟩,
                               table := some t }) := by
  unfold ask
  cases server with
  | none => exact ⟨rfl, .inl ⟨_, rfl, rfl⟩⟩
  | some answer =>
      refine ⟨rfl, ?_⟩
      dsimp only
      unfold receive
      cases answer with
      | error cause =>
          unfold fallBack
          cases old with
          | none => exact .inl ⟨_, rfl, rfl⟩
          | some r =>
              dsimp only
              split
              · exact .inl ⟨_, rfl, rfl⟩
              · exact .inr (.inl ⟨_, rfl, rfl⟩)
      | ok raw =>
          dsimp only
          split
          · exact .inl ⟨_, rfl, rfl⟩
          · next t ht =>
            exact .inr (.inr ⟨raw, t, rfl, ht, rfl, keep_cache c now raw t⟩)

-- ==== scenes

/-- A cache at a moment: the time, and what the server says when it is
asked. Without a server there is nobody to ask. -/
structure Scene (ε : Type) where
  cache : Cache
  now : Int
  server : Option (Except ε String)

/-- What may change around a cache. -/
inductive Change (ε : Type) where
  | clock (now : Int)
  | server (answer : Option (Except ε String))
  /-- Others write to the store, or take from it. -/
  | records (contents : Assoc Record)

/-- Others replace the contents of a store; one that fails has none. -/
def overwrite (contents : Assoc Record) : Store → Store
  | .working _ => .working contents
  | .failing reason => .failing reason

namespace Scene

def change (s : Scene ε) : Change ε → Scene ε
  | .clock now => { s with now }
  | .server answer => { s with server := answer }
  | .records contents =>
    { s with cache :=
        { s.cache with store := s.cache.store.map (overwrite contents) } }

/-- The scene after some changes. -/
def after (s : Scene ε) (cs : List (Change ε)) : Scene ε := cs.foldl change s

variable (describe : ε → String)

/-- A fetch, and what changes while the server's answer is awaited. -/
def fetched (s : Scene ε) (meanwhile : List (Change ε)) : Reply ε :=
  let found := s.cache.consult s.now
  let s' := after { s with cache := found.cache } meanwhile
  match found.finding with
  | .table t => ⟨s'.cache, .ok t, false, found.log⟩
  | .nothing old => s'.cache.ask describe s'.now old s.server found.log

/-- A refresh, and what changes while the server's answer is awaited. -/
def refreshed (s : Scene ε) (meanwhile : List (Change ε)) : Reply ε :=
  let s' := s.after meanwhile
  s'.cache.ask describe s'.now none s.server []

/-- If nothing changes meanwhile, this is the cache's own fetch. -/
theorem fetched_nil (s : Scene ε) :
    s.fetched describe [] = s.cache.fetch describe s.now s.server := by
  unfold fetched fetch
  cases (s.cache.consult s.now).finding with
  | table t => rfl
  | nothing old => rfl

end Scene

-- ==== runs

/-- What happens to a cache: a change around it, or an operation with what
changes before it is over. -/
inductive Event (ε : Type) where
  | change (c : Change ε)
  | invalidate
  | fetch (meanwhile : List (Change ε))
  | refresh (meanwhile : List (Change ε))

namespace Scene

variable (describe : ε → String)

/-- What an operation answers. -/
def reply? (s : Scene ε) : Event ε → Option (Reply ε)
  | .fetch meanwhile => some (s.fetched describe meanwhile)
  | .refresh meanwhile => some (s.refreshed describe meanwhile)
  | _ => none

/-- The scene as others leave it while an event happens. -/
def around (s : Scene ε) : Event ε → Scene ε
  | .change c => s.change c
  | .invalidate => s
  | .fetch meanwhile => s.after meanwhile
  | .refresh meanwhile => s.after meanwhile

/-- The scene after an event. -/
def step (s : Scene ε) (e : Event ε) : Scene ε :=
  match e with
  | .invalidate => { s with cache := s.cache.invalidate }
  | e =>
    match s.reply? describe e with
    | some r => { s.around e with cache := r.cache }
    | none => s.around e

def run (s : Scene ε) (es : List (Event ε)) : Scene ε :=
  es.foldl (step describe) s

/-- The event drops the table in memory, or puts another in its place. -/
def Disturbs (s : Scene ε) : Event ε → Prop
  | .invalidate => True
  | .refresh meanwhile => ∃ t, (s.refreshed describe meanwhile).result = .ok t
  | _ => False

/-- Nothing in a run drops the table in memory or replaces it. -/
def Undisturbed : Scene ε → List (Event ε) → Prop
  | _, [] => True
  | s, e :: es => ¬ Disturbs describe s e ∧ Undisturbed (step describe s e) es

variable {describe}

-- ==== outside changes

theorem after_cons (s : Scene ε) (c : Change ε)
    (cs : List (Change ε)) : s.after (c :: cs) = (s.change c).after cs := rfl

/-- Others can change the store of a cache and nothing else of it. -/
theorem after_cache (s : Scene ε) (cs : List (Change ε)) :
    (s.after cs).cache
      = { s.cache with store := (s.after cs).cache.store } := by
  induction cs generalizing s with
  | nil => rfl
  | cons c cs ih =>
      rw [after_cons, ih (s.change c)]
      cases c with
      | clock now => rfl
      | server answer => rfl
      | records contents => rfl

/-- A table that is put into memory meets the same changes. -/
theorem after_withTable (s : Scene ε) (cs : List (Change ε))
    (t : Option NodeTable) :
    after { s with cache := { s.cache with table := t } } cs
      = { s.after cs with
          cache := { (s.after cs).cache with table := t } } := by
  induction cs generalizing s with
  | nil => rfl
  | cons c cs ih =>
      rw [after_cons, after_cons, ← ih (s.change c)]
      cases c with
      | clock now => rfl
      | server answer => rfl
      | records contents => rfl

-- ==== operations

variable {s : Scene ε}

/-- A table in memory is handed out: nobody is asked, and the store may be
any. -/
theorem fetched_of_table (h : s.cache.table = some t) (cs : List (Change ε)) :
    s.fetched describe cs = ⟨(s.after cs).cache, .ok t, false, []⟩ := by
  unfold fetched
  rw [consult_of_table h]

variable {e : Event ε} {r : Reply ε}

/-- Everything that can come of an operation. -/
theorem reply_cases (h : s.reply? describe e = some r) :
    (∃ x, r.result = .error x ∧ r.cache = (s.around e).cache)
    ∨ (∃ t, r.result = .ok t
        ∧ r.cache = { (s.around e).cache with table := some t })
    ∨ ∃ raw t, s.server = some (.ok raw) ∧ NodeType.parseTable raw = .ok t
        ∧ r.result = .ok t
        ∧ r.cache = { (s.around e).cache with
            store := (s.around e).cache.storeWith ⟨raw, (s.around e).now⟩
            table := some t } := by
  cases e with
  | change c => cases h
  | invalidate => cases h
  | refresh cs =>
      cases h
      exact (ask_cases _ describe _ none s.server []).2
  | fetch cs =>
      cases h
      unfold fetched
      rcases consult_cases s.cache s.now with
        ⟨t, htable, hfound⟩ | ⟨old, t, log, htable, -, hfound⟩
          | ⟨old, log, htable, -, hfound⟩
      · rw [hfound]
        refine .inr (.inl ⟨t, rfl, ?_⟩)
        show (s.after cs).cache = { (s.after cs).cache with table := some t }
        rw [after_cache, ← htable]
      · rw [hfound]
        refine .inr (.inl ⟨t, rfl, ?_⟩)
        exact congrArg Scene.cache (after_withTable s cs (some t))
      · rw [hfound]
        exact (ask_cases _ describe _ old s.server log).2

/-- The server is asked if there is one and neither memory nor store has a
table to hand out. -/
theorem fetched_asked_iff (s : Scene ε) (cs : List (Change ε)) :
    (s.fetched describe cs).asked = true
      ↔ s.server.isSome = true ∧ s.cache.table = none
        ∧ ¬ ∃ r t, s.cache.Holds s.now r t := by
  unfold fetched
  rcases consult_cases s.cache s.now with
    ⟨t, htable, hfound⟩ | ⟨r, t, log, htable, hholds, hfound⟩
      | ⟨old, log, htable, hno, hfound⟩
  · rw [hfound, htable]
    simp
  · rw [hfound]
    refine ⟨fun h => (Bool.false_ne_true h).elim, fun h => ?_⟩
    exact absurd ⟨r, t, hholds⟩ h.2.2
  · rw [hfound]
    dsimp only
    rw [(ask_cases _ describe _ old s.server log).1]
    exact ⟨fun h => ⟨h, htable, hno⟩, fun h => h.1⟩

/-- The table that an operation hands out is in memory. -/
theorem table_of_reply (h : s.reply? describe e = some r)
    (ht : r.result = .ok t) : r.cache.table = some t := by
  rcases reply_cases h with ⟨x, hx, -⟩ | ⟨u, hu, hc⟩ | ⟨raw, u, -, -, hu, hc⟩
  · rw [hx] at ht
    cases ht
  · rw [hu] at ht
    cases ht
    rw [hc]
  · rw [hu] at ht
    cases ht
    rw [hc]

/-- An operation that fails leaves the cache as others do. -/
theorem cache_of_failure (h : s.reply? describe e = some r) {x : Failure ε}
    (hx : r.result = .error x) : r.cache = (s.around e).cache := by
  rcases reply_cases h with ⟨-, -, hc⟩ | ⟨t, ht, -⟩ | ⟨-, t, -, -, ht, -⟩
  · exact hc
  · rw [hx] at ht
    cases ht
  · rw [hx] at ht
    cases ht

-- ==== runs

theorem step_of_reply (h : s.reply? describe e = some r) :
    s.step describe e = { s.around e with cache := r.cache } := by
  cases e with
  | change c => cases h
  | invalidate => cases h
  | fetch cs => cases h; rfl
  | refresh cs => cases h; rfl

/-- While an event happens, others leave all but the store alone. -/
theorem around_cache (s : Scene ε) (e : Event ε) :
    (s.around e).cache
      = { s.cache with store := (s.around e).cache.store } := by
  cases e with
  | change c => exact after_cache s [c]
  | invalidate => rfl
  | fetch cs => exact after_cache s cs
  | refresh cs => exact after_cache s cs

/-- An event leaves the cache's key and its idea of youth alone. -/
theorem step_fixed (describe : ε → String) (s : Scene ε) (e : Event ε) :
    (s.step describe e).cache.key = s.cache.key
      ∧ (s.step describe e).cache.lifetime = s.cache.lifetime := by
  have haround : (s.around e).cache.key = s.cache.key
      ∧ (s.around e).cache.lifetime = s.cache.lifetime := by
    rw [around_cache]
    exact ⟨rfl, rfl⟩
  cases hr : s.reply? describe e with
  | some r =>
      rw [step_of_reply hr]
      rcases reply_cases hr with
        ⟨-, -, hc⟩ | ⟨t, -, hc⟩ | ⟨raw, t, -, -, -, hc⟩
      all_goals
        dsimp only
        rw [hc]
        exact haround
  | none =>
      cases e with
      | change c => exact haround
      | invalidate => exact ⟨rfl, rfl⟩
      | fetch cs => cases hr
      | refresh cs => cases hr

theorem run_fixed (describe : ε → String) (s : Scene ε)
    (es : List (Event ε)) :
    (s.run describe es).cache.key = s.cache.key
      ∧ (s.run describe es).cache.lifetime = s.cache.lifetime := by
  induction es generalizing s with
  | nil => exact ⟨rfl, rfl⟩
  | cons e es ih =>
      obtain ⟨hkey, hlifetime⟩ := ih (s.step describe e)
      obtain ⟨hkey', hlifetime'⟩ := step_fixed describe s e
      exact ⟨hkey.trans hkey', hlifetime.trans hlifetime'⟩

/-- A table in memory survives an event that does not disturb it. -/
theorem step_table (h : s.cache.table = some t)
    (hquiet : ¬ Disturbs describe s e) :
    (s.step describe e).cache.table = some t := by
  cases e with
  | invalidate => exact absurd trivial hquiet
  | change c =>
      show (s.around (.change c)).cache.table = some t
      rw [around_cache]
      exact h
  | fetch cs =>
      have hr : s.reply? describe (.fetch cs) = some _ := rfl
      rw [step_of_reply hr]
      exact table_of_reply hr (congrArg Reply.result (fetched_of_table h cs))
  | refresh cs =>
      have hr : s.reply? describe (.refresh cs) = some _ := rfl
      rw [step_of_reply hr]
      cases hres : (s.refreshed describe cs).result with
      | ok u => exact absurd ⟨u, hres⟩ hquiet
      | error x =>
          dsimp only
          rw [cache_of_failure hr hres, around_cache]
          exact h

/-- A table in memory survives a run that does not disturb it. -/
theorem run_table {es : List (Event ε)} (h : s.cache.table = some t)
    (hquiet : Undisturbed describe s es) :
    (s.run describe es).cache.table = some t := by
  induction es generalizing s with
  | nil => exact h
  | cons e es ih => exact ih (step_table h hquiet.1) hquiet.2

/-- What a step does to the store: nothing that others do not do, or it
puts in what the server has just said and can be read. -/
theorem step_store (s : Scene ε) (e : Event ε) :
    (s.step describe e).cache.store = (s.around e).cache.store
    ∨ ∃ r raw t, s.reply? describe e = some r ∧ r.result = .ok t
        ∧ s.server = some (.ok raw) ∧ NodeType.parseTable raw = .ok t
        ∧ (s.step describe e).cache.store
          = (s.around e).cache.store.map fun st =>
              (st.put s.cache.key ⟨raw, (s.around e).now⟩).1 := by
  cases hr : s.reply? describe e with
  | some r =>
      rw [step_of_reply hr]
      rcases reply_cases hr with
        ⟨-, -, hc⟩ | ⟨t, -, hc⟩ | ⟨raw, t, hserver, ht, hres, hc⟩
      · exact .inl (congrArg Cache.store hc :)
      · exact .inl (congrArg Cache.store hc :)
      · have hkey : (s.around e).cache.key = s.cache.key := by
          rw [around_cache]
        refine .inr ⟨r, raw, t, rfl, hres, hserver, ht, ?_⟩
        dsimp only
        rw [hc, ← hkey]
        rfl
  | none =>
      cases e with
      | change c => exact .inl rfl
      | invalidate => exact .inl rfl
      | fetch cs => cases hr
      | refresh cs => cases hr

/-- The same scene with another store. -/
def withStore (s : Scene ε) (store : Option Store) : Scene ε :=
  { s with cache := { s.cache with store } }

end Scene

-- ==== youth

/-- Ages are counted as far as they go, which is far enough. -/
theorem isYoung_iff (h : c.lifetime.nanoseconds ≤ Duration.limit) (now : Int)
    (r : Record) :
    c.isYoung now r = true
      ↔ now - r.fetchedAt < c.youth.nanoseconds := by
  have hlow : 0 < c.youth.nanoseconds := by
    unfold youth
    split
    · next hpos => exact hpos
    · decide
  have hhigh : c.youth.nanoseconds ≤ Duration.limit := by
    unfold youth
    split
    · exact h
    · decide
  unfold isYoung Duration.between
  rw [decide_eq_true_eq]
  dsimp only
  omega

/-- A cache holds a table if its store works and has a record of its key
that is young and can be read. -/
theorem holds_iff (h : c.lifetime.nanoseconds ≤ Duration.limit) (now : Int)
    (r : Record) (t : NodeTable) :
    c.Holds now r t
      ↔ ∃ records, c.store = some (.working records)
          ∧ Assoc.get? records c.key = some r
          ∧ now - r.fetchedAt < c.youth.nanoseconds
          ∧ NodeType.parseTable r.raw = .ok t := by
  unfold Holds stored
  rw [isYoung_iff h]
  constructor
  · rintro ⟨hstored, hyoung, ht⟩
    obtain ⟨store, hstore, hget⟩ := Option.map_eq_some_iff.1 hstored
    cases store with
    | failing reason => cases hget
    | working records =>
        refine ⟨records, hstore, ?_, hyoung, ht⟩
        unfold Store.get at hget
        dsimp only at hget
        split at hget
        · next found hfound =>
          cases hget
          exact hfound
        · cases hget
  · rintro ⟨records, hstore, hget, hyoung, ht⟩
    refine ⟨?_, hyoung, ht⟩
    rw [hstore, Option.map_some]
    unfold Store.get
    dsimp only
    rw [hget]

-- ==== whole runs

open Scene in
/-- What a cache promises in every run, whatever happens around it. Let
`e` come after some `past`.

If `e` is an operation that fails, the scene is as others have left it.
If it hands out a table, then until that table is dropped or replaced
every fetch hands out the same one, asks nobody, and neither reads nor
writes the store: with any other store it does just the same. The store
changes only if the server's answer can be read; then this answer is put
under the cache's key, with the time. And if there is a server, a fetch
asks it exactly if no table is in memory and the store has no readable
record of the key that is younger than the cache lets it be. -/
theorem operations_over_runs (describe : ε → String) (start : Scene ε)
    (hlimit : start.cache.lifetime.nanoseconds ≤ Duration.limit)
    (past : List (Event ε)) (e : Event ε) :
    let s := start.run describe past
    let s' := s.step describe e
    (∀ r x, s.reply? describe e = some r → r.result = .error x →
      s' = s.around e)
    ∧ (∀ r t, s.reply? describe e = some r → r.result = .ok t →
        ∀ later, Undisturbed describe s' later → ∀ store meanwhile,
          let z := (s'.run describe later).withStore store
          z.fetched describe meanwhile
            = ⟨(z.after meanwhile).cache, .ok t, false, []⟩)
    ∧ (s'.cache.store = (s.around e).cache.store
      ∨ ∃ r raw t, s.reply? describe e = some r ∧ r.result = .ok t
          ∧ s.server = some (.ok raw) ∧ NodeType.parseTable raw = .ok t
          ∧ s'.cache.store
            = (s.around e).cache.store.map fun st =>
                (st.put start.cache.key ⟨raw, (s.around e).now⟩).1)
    ∧ (s.server.isSome = true → ∀ meanwhile,
        (s.fetched describe meanwhile).asked = true
          ↔ s.cache.table = none
            ∧ ¬ ∃ records r t, s.cache.store = some (.working records)
                ∧ Assoc.get? records start.cache.key = some r
                ∧ s.now - r.fetchedAt < start.cache.youth.nanoseconds
                ∧ NodeType.parseTable r.raw = .ok t) := by
  intro s s'
  obtain ⟨hkey, hlifetime⟩ := run_fixed describe start past
  have hyouth : s.cache.youth = start.cache.youth := by
    unfold youth
    rw [hlifetime]
  refine ⟨fun r x hr hx => ?_,
    fun r t hr ht later hquiet store meanwhile => ?_,
    ?_, fun hserver meanwhile => ?_⟩
  · show s.step describe e = s.around e
    rw [step_of_reply hr, cache_of_failure hr hx]
  · have htable : s'.cache.table = some t := by
      show (s.step describe e).cache.table = some t
      rw [step_of_reply hr]
      exact table_of_reply hr ht
    refine fetched_of_table ?_ meanwhile
    exact run_table htable hquiet
  · rw [← hkey]
    exact step_store s e
  · rw [fetched_asked_iff, ← hkey, ← hyouth]
    have hbound : s.cache.lifetime.nanoseconds ≤ Duration.limit := by
      rw [hlifetime]
      exact hlimit
    simp only [holds_iff hbound, hserver, true_and]
    refine and_congr_right fun _ => not_congr ⟨?_, ?_⟩
    · rintro ⟨r, t, records, h⟩
      exact ⟨records, r, t, h⟩
    · rintro ⟨records, r, t, h⟩
      exact ⟨r, t, records, h⟩

/-- A server that answers at first, and others who empty the store and
break the server later. -/
def flakyServer : List (Event String) :=
  [.change (.clock 5), .change (.records []),
    .change (.server (some (.error "down"))), .refresh [.clock 9]]

/-- The server is asked once. Its answer is stored with the time it came
at, and is handed out again although the store has lost it and a refresh
has failed. -/
theorem operations_over_runs_flakyServer :
    let start : Scene String :=
      { cache := { key := "h", store := some .empty }, now := 1,
        server := some (.ok "\x7b\x7d") }
    let first : Event String := .fetch [.clock 3]
    let s := start.step id first
    start.cache.lifetime.nanoseconds ≤ Duration.limit
      ∧ (start.fetched id [.clock 3]).asked = true
      ∧ s.cache.store = some (.working [("h", ⟨"\x7b\x7d", 3⟩)])
      ∧ Scene.Undisturbed id s flakyServer
      ∧ ∀ store,
          let z := (s.run id flakyServer).withStore store
          z.cache.fetch id z.now z.server
            = ⟨z.cache, .ok [], false, []⟩ := by
  intro start first s
  have hlimit : start.cache.lifetime.nanoseconds ≤ Duration.limit := by decide
  obtain ⟨-, hagain, -, hasked⟩ :=
    operations_over_runs id start hlimit [] first
  have hquiet : Scene.Undisturbed id s flakyServer := by
    refine ⟨id, id, id, ?_, trivial⟩
    rintro ⟨t, ht⟩
    cases ht
  refine ⟨hlimit, (hasked rfl [.clock 3]).2 ⟨rfl, ?_⟩, rfl, hquiet, ?_⟩
  · rintro ⟨records, r, t, hstore, hget, -⟩
    cases hstore
    cases hget
  · intro store z
    rw [← Scene.fetched_nil]
    exact hagain _ [] rfl rfl flakyServer hquiet store []

end PromptGraph.Cache
