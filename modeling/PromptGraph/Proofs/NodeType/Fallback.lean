/-
What a stored table is good for once it is old.

A record that can be read is handed out while it is young, and it stands
in when the server fails. That is all: if the server answers and the
answer cannot be read, the old table is refused although it is at hand,
and so it is if there is no server to ask. `Scene.Supplies` and
`Scene.Refuses` list the ways a fetch can end, and each fetch ends in
exactly one of them, whatever others do to the store while it waits.

A refusal loses nothing. The record stays, and a fetch whose server fails
outright hands it out again.
-/
import PromptGraph.Proofs.NodeType.Cache

namespace PromptGraph.Cache

variable {ε : Type}

-- ==== at hand

/-- The store has a record of the cache's key that can be read as `t`, of
whatever age. -/
def Stores (c : Cache) (r : Record) (t : NodeTable) : Prop :=
  c.stored = some (.ok r) ∧ NodeType.parseTable r.raw = .ok t

/-- The server has to be asked: no table is in memory, and the record is
old. -/
def Due (c : Cache) (now : Int) (r : Record) : Prop :=
  c.table = none ∧ c.isYoung now r = false

instance (c : Cache) (now : Int) (r : Record) : Decidable (c.Due now r) :=
  decidable_of_iff (c.table.isNone = true ∧ c.isYoung now r = false)
    (by rw [Due, Option.isNone_iff_eq_none])

variable {c : Cache} {r : Record} {t : NodeTable}

theorem consult_of_young (h : c.Stores r t) {now : Int}
    (htable : c.table = none) (hyoung : c.isYoung now r = true) :
    (c.consult now).finding = .table t := by
  unfold consult
  rw [htable, h.1]
  dsimp only
  rw [if_pos hyoung, h.2]

theorem consult_of_due (h : c.Stores r t) {now : Int} (hdue : c.Due now r) :
    c.consult now = ⟨c, .nothing (some r), []⟩ := by
  unfold consult
  rw [hdue.1, h.1]
  dsimp only
  rw [hdue.2]
  rfl

-- ==== fetching

namespace Scene

variable {describe : ε → String} {s : Scene ε}

/-- The ways a fetch can end with a table when the store has a record `r`
that reads as `t`. -/
inductive Supplies (s : Scene ε) (r : Record) (t : NodeTable) :
    NodeTable → Prop
  | memory {u : NodeTable} (h : s.cache.table = some u) : Supplies s r t u
  | young (htable : s.cache.table = none)
      (h : s.cache.isYoung s.now r = true) : Supplies s r t t
  | old {cause : ε} (hdue : s.cache.Due s.now r)
      (h : s.server = some (.error cause)) : Supplies s r t t
  | new {raw : String} {u : NodeTable} (hdue : s.cache.Due s.now r)
      (h : s.server = some (.ok raw))
      (hread : NodeType.parseTable raw = .ok u) : Supplies s r t u

/-- The ways it can end without one. -/
inductive Refuses (s : Scene ε) (r : Record) : Failure ε → Prop
  | alone (hdue : s.cache.Due s.now r) (h : s.server = none) :
      Refuses s r (.noServer s.cache.key)
  | unreadable {raw : String} {cause : NodeType.TableError}
      (hdue : s.cache.Due s.now r) (h : s.server = some (.ok raw))
      (hread : NodeType.parseTable raw = .error cause) :
      Refuses s r (.unreadable cause)

theorem fetched_of_due (h : s.cache.Stores r t)
    (hdue : s.cache.Due s.now r) (cs : List (Change ε)) :
    s.fetched describe cs
      = (s.after cs).cache.ask describe (s.after cs).now (some r) s.server
          [] := by
  unfold fetched
  rw [consult_of_due h hdue]

theorem result_of_supplies (h : s.cache.Stores r t) {u : NodeTable}
    (hu : s.Supplies r t u) (cs : List (Change ε)) :
    (s.fetched describe cs).result = .ok u := by
  cases hu with
  | memory hmem => rw [fetched_of_table hmem]
  | young htable hyoung =>
      unfold fetched
      dsimp only
      rw [consult_of_young h htable hyoung]
  | old hdue hserver =>
      rw [fetched_of_due h hdue, hserver]
      show (fallBack _ describe _ (some r) _).result = .ok t
      unfold fallBack
      dsimp only
      rw [h.2]
  | new hdue hserver hread =>
      rw [fetched_of_due h hdue, hserver]
      show (receive _ describe _ (some r) (.ok _)).result = .ok u
      unfold receive
      dsimp only
      rw [hread]
      rfl

theorem result_of_refuses (h : s.cache.Stores r t) {e : Failure ε}
    (he : s.Refuses r e) (cs : List (Change ε)) :
    (s.fetched describe cs).result = .error e := by
  cases he with
  | alone hdue hserver =>
      rw [fetched_of_due h hdue, hserver]
      show Except.error (Failure.noServer (s.after cs).cache.key) = _
      rw [after_cache]
  | unreadable hdue hserver hread =>
      rw [fetched_of_due h hdue, hserver]
      show (receive _ describe _ (some r) (.ok _)).result = _
      unfold receive
      dsimp only
      rw [hread]

/-- There is no other way. -/
theorem supplies_or_refuses (s : Scene ε) (r : Record) (t : NodeTable) :
    (∃ u, s.Supplies r t u) ∨ ∃ e, s.Refuses r e := by
  cases htable : s.cache.table with
  | some u => exact .inl ⟨u, .memory htable⟩
  | none =>
      cases hyoung : s.cache.isYoung s.now r with
      | true => exact .inl ⟨t, .young htable hyoung⟩
      | false =>
          cases hserver : s.server with
          | none => exact .inr ⟨_, .alone ⟨htable, hyoung⟩ hserver⟩
          | some answer =>
              cases answer with
              | error cause => exact .inl ⟨t, .old ⟨htable, hyoung⟩ hserver⟩
              | ok raw =>
                  cases hread : NodeType.parseTable raw with
                  | error cause =>
                      exact .inr ⟨_, .unreadable ⟨htable, hyoung⟩ hserver hread⟩
                  | ok u => exact .inl ⟨u, .new ⟨htable, hyoung⟩ hserver hread⟩

/-- A fetch ends with a table exactly in the ways listed. -/
theorem result_eq_ok_iff (h : s.cache.Stores r t) (cs : List (Change ε))
    (u : NodeTable) :
    (s.fetched describe cs).result = .ok u ↔ s.Supplies r t u := by
  constructor
  · intro hu
    rcases supplies_or_refuses s r t with ⟨v, hv⟩ | ⟨e, he⟩
    · rw [result_of_supplies h hv] at hu
      cases hu
      exact hv
    · rw [result_of_refuses h he] at hu
      cases hu
  · intro hu
    exact result_of_supplies h hu cs

theorem result_eq_error_iff (h : s.cache.Stores r t) (cs : List (Change ε))
    (e : Failure ε) :
    (s.fetched describe cs).result = .error e ↔ s.Refuses r e := by
  constructor
  · intro he
    rcases supplies_or_refuses s r t with ⟨u, hu⟩ | ⟨e', he'⟩
    · rw [result_of_supplies h hu] at he
      cases he
    · rw [result_of_refuses h he'] at he
      cases he
      exact he'
  · intro he
    exact result_of_refuses h he cs

/-- In terms of the server: an old record helps if the server fails, and
is not needed if its answer can be read. -/
theorem exists_supplies_iff (s : Scene ε) (r : Record) (t : NodeTable) :
    (∃ u, s.Supplies r t u)
      ↔ (s.cache.Due s.now r →
          (∃ cause, s.server = some (.error cause))
            ∨ ∃ raw u, s.server = some (.ok raw)
                ∧ NodeType.parseTable raw = .ok u) := by
  constructor
  · rintro ⟨u, hu⟩ hdue
    cases hu with
    | memory h =>
        rw [hdue.1] at h
        cases h
    | young _ h =>
        rw [hdue.2] at h
        cases h
    | old _ h => exact .inl ⟨_, h⟩
    | new _ h hread => exact .inr ⟨_, u, h, hread⟩
  · intro hserver
    rcases supplies_or_refuses s r t with hu | ⟨e, he⟩
    · exact hu
    · cases he with
      | alone hdue hnone =>
          rcases hserver hdue with ⟨cause, h⟩ | ⟨raw, u, h, -⟩
          · rw [hnone] at h
            cases h
          · rw [hnone] at h
            cases h
      | unreadable hdue hanswer hread =>
          rcases hserver hdue with ⟨cause, h⟩ | ⟨raw, u, h, hu⟩
          · rw [hanswer] at h
            cases h
          · rw [hanswer] at h
            cases h
            rw [hread] at hu
            cases hu

/-- Where a fetch is refused, no table is in memory. -/
theorem Refuses.table_eq_none {e : Failure ε} (h : s.Refuses r e) :
    s.cache.table = none := by
  cases h with
  | alone hdue _ => exact hdue.1
  | unreadable hdue _ _ => exact hdue.1

/-- A record that can be read stands in for a server that fails. -/
theorem supplies_of_failing {cause : ε} (r : Record) (t : NodeTable)
    (htable : s.cache.table = none) (h : s.server = some (.error cause)) :
    s.Supplies r t t := by
  cases hyoung : s.cache.isYoung s.now r with
  | true => exact .young htable hyoung
  | false => exact .old ⟨htable, hyoung⟩ h

end Scene

open Scene in
/-- Let the store have a readable record of the cache's key, of whatever
age. Each fetch ends in exactly one of the listed ways, whatever others do
while it waits. So it hands out a table exactly if none has to be asked
for, or the server fails, or its answer can be read; it is refused if
there is no server, or an answer that cannot be read. Then the cache is
as others leave it, and if they leave the store alone, the record is
handed out by any later fetch whose server fails. -/
theorem old_table_refused_iff (describe : ε → String) (s : Scene ε)
    (h : s.cache.Stores r t) (meanwhile : List (Change ε)) :
    let reply := s.fetched describe meanwhile
    (∀ u, reply.result = .ok u ↔ s.Supplies r t u)
    ∧ (∀ e, reply.result = .error e ↔ s.Refuses r e)
    ∧ ((∃ u, reply.result = .ok u)
      ↔ (s.cache.Due s.now r →
          (∃ cause, s.server = some (.error cause))
            ∨ ∃ raw u, s.server = some (.ok raw)
                ∧ NodeType.parseTable raw = .ok u))
    ∧ ∀ e, reply.result = .error e →
        reply.cache = (s.after meanwhile).cache
        ∧ (reply.cache.store = s.cache.store → ∀ now cause later,
            (fetched describe ⟨reply.cache, now, some (.error cause)⟩
              later).result = .ok t) := by
  intro reply
  refine ⟨result_eq_ok_iff h meanwhile, result_eq_error_iff h meanwhile, ?_,
    fun e he => ?_⟩
  · rw [← exists_supplies_iff s r t]
    exact exists_congr (result_eq_ok_iff h meanwhile)
  · have hcache : reply.cache = (s.after meanwhile).cache :=
      cache_of_failure (e := .fetch meanwhile) rfl he
    refine ⟨hcache, fun hstore now cause later => ?_⟩
    have hsame : reply.cache = s.cache := by
      rw [hcache, after_cache, ← hcache, hstore]
    rw [hsame]
    refine result_of_supplies (s := ⟨s.cache, now, some (.error cause)⟩) h ?_
      later
    refine supplies_of_failing r t ?_ rfl
    exact ((result_eq_error_iff h meanwhile e).1 he).table_eq_none

/-- A cache whose only record is two days old. -/
def dustyCache : Cache where
  key := "h"
  store := some (.working [("h", ⟨"\x7b\x7d", 0⟩)])

/-- Two days after the record. -/
def dustyNow : Int := 2 * 24 * Duration.hour

/-- A server that is down does no harm. -/
theorem old_table_refused_iff_dusty :
    dustyCache.Stores ⟨"\x7b\x7d", 0⟩ []
      ∧ dustyCache.Due dustyNow ⟨"\x7b\x7d", 0⟩
      ∧ (dustyCache.fetch id dustyNow (some (.error "down"))).result
          = .ok [] := by
  have hstores : dustyCache.Stores ⟨"\x7b\x7d", 0⟩ [] := ⟨rfl, rfl⟩
  have hdue : dustyCache.Due dustyNow ⟨"\x7b\x7d", 0⟩ := by decide
  refine ⟨hstores, hdue, ?_⟩
  rw [← Scene.fetched_nil id ⟨dustyCache, dustyNow, some (.error "down")⟩]
  refine ((old_table_refused_iff id _ hstores []).1 []).2 ?_
  exact .old hdue rfl

/-- One that talks nonsense does: the table is at hand and is refused. -/
theorem old_table_refused_for_nonsense :
    dustyCache.Stores ⟨"\x7b\x7d", 0⟩ []
      ∧ (dustyCache.fetch id dustyNow (some (.ok "nope"))
          : Reply String).result.toOption = none := by
  exact ⟨⟨rfl, rfl⟩, rfl⟩

end PromptGraph.Cache
