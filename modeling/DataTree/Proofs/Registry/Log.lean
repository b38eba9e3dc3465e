import DataTree.Proofs.Path.Segments
import DataTree.Proofs.Rollback.Registry
import Mathlib.Data.List.Dedup
import Mathlib.Data.List.Induction

/-!
# DataTree.Proofs.Registry.Log

A registry as a log of registrations.

The requests to a registry are also a history: what survives of it is the log of all
registrations without those that a later request dropped, in the order in which they
were made (`survivors`).  A registry keeps these registrations in another form, path by
path, and forgets a path with its last registration.  Nothing is lost by that:

* `targetsAt_run` — a path holds its survivors;
* `paths_run` — the paths of the survivors are kept and no others, in the order in
  which they last came to hold something (`LastFilled`);
* `lookup_run` — a query is answered by the survivors that match it (`Path.Matches`).
-/

namespace DataTree

namespace Path

/-! ## Matching -/

/-- A segment of a query before the last one asks for a registered segment as it is.  Without
a bracket it also asks for the segments that are the same once they are cut at their first
bracket: those which go on with a bracket where it ends. -/
def Asks (query registered : List Char) : Prop :=
  query = registered ∨ '[' ∉ query ∧ ∃ predicate, registered = query ++ '[' :: predicate

/-- A query matches a registered path: segment by segment, the last one exactly. -/
structure Matches (query registered : List (List Char)) : Prop where
  length_eq : query.length = registered.length
  last_eq : query.getLast? = registered.getLast?
  asks : List.Forall₂ Asks query.dropLast registered.dropLast

/-- How a segment is compared with what is asked for, in words of the specification. -/
theorem asks_iff {q s : List Char} :
    (if q.contains '[' then q == s else q == segmentName s) = true ↔ Asks q s := by
  unfold Asks
  by_cases hq : '[' ∈ q
  · simp [hq]
  · simp only [List.contains_iff_mem, hq, if_false, beq_iff_eq, not_false_eq_true, true_and]
    exact eq_segmentName_iff hq

/-- The registry answers the queries that match. -/
theorem answers_iff (query registered : List (List Char)) :
    answers query registered = true ↔ Matches query registered := by
  induction query, registered using answers.induct with
  | case1 => simpa [answers] using Matches.mk rfl rfl .nil
  | case2 q s =>
    simp only [answers, beq_iff_eq]
    refine ⟨fun h => ⟨rfl, by simp [h], .nil⟩, fun h => ?_⟩
    simpa using h.last_eq
  | case3 q q' qs s s' ss ih =>
    rw [answers, Bool.and_eq_true, asks_iff, ih]
    constructor
    · rintro ⟨hq, h⟩
      exact ⟨by simpa using h.length_eq, by simpa using h.last_eq, .cons hq h.asks⟩
    · rintro ⟨hlength, hlast, hasks⟩
      cases hasks with
      | cons hq h => exact ⟨hq, by simpa using hlength, by simpa using hlast, h⟩
  | case4 query registered h₁ h₂ h₃ =>
    simp only [answers, Bool.false_eq_true, false_iff]
    intro h
    have hlength := h.length_eq
    -- of equally many segments these are none, one each, or more
    rcases query with _ | ⟨q, _ | ⟨q', qs⟩⟩ <;> rcases registered with _ | ⟨s, _ | ⟨s', ss⟩⟩
    case nil.nil => exact h₁ rfl rfl
    case cons.nil.cons.nil => exact h₂ q s rfl rfl
    case cons.cons.cons.cons => exact h₃ q q' qs s s' ss rfl rfl
    all_goals simp at hlength

instance (query registered : List (List Char)) : Decidable (Matches query registered) :=
  decidable_of_iff _ (answers_iff query registered)

end Path

namespace Registry

/-! ## Requests -/

/-- What is asked of a registry. -/
inductive Request where
  | register (path : String) (target : Target)
  | unregister (path : String)
  | unregisterTarget (path : String) (target : Target)

/-- The registry after a request. -/
def serve (r : Registry) : Request → Registry
  | .register path target => r.register path target
  | .unregister path => r.unregister path
  | .unregisterTarget path target => r.unregisterTarget path target

/-- The registry that requests leave, from the empty one on. -/
def run (requests : List Request) : Registry := requests.foldl serve {}

/-- The log after a request. -/
def Request.record (log : List Registration) : Request → List Registration
  | .register path target => log ++ [(path, target)]
  | .unregister path => log.filter fun e => e.1 ≠ path
  | .unregisterTarget path target => log.eraseP (Registration.hits path target)

/-- The registrations that no later request has dropped, in the order in which they were
made. -/
def survivors (requests : List Request) : List Registration := requests.foldl Request.record []

/-- The targets that a log has at a path. -/
def heldIn (log : List Registration) (path : String) : List Target :=
  (log.filter fun e => e.1 = path).map Prod.snd

/-- A request, given by its number, makes a path hold something that held nothing. -/
def Filled (requests : List Request) (path : String) (n : Nat) : Prop :=
  n < requests.length ∧ heldIn (survivors (requests.take n)) path = []
    ∧ heldIn (survivors (requests.take (n + 1))) path ≠ []

/-- The last request that does so. -/
def LastFilled (requests : List Request) (path : String) (n : Nat) : Prop :=
  Filled requests path n ∧ ∀ m, n < m → ¬ Filled requests path m

variable {r : Registry} {requests : List Request} {request : Request} {path other : String}
  {x : Target} {log : List Registration}

/-- The last request is served last. -/
theorem run_concat (requests : List Request) (request : Request) :
    run (requests ++ [request]) = (run requests).serve request := List.foldl_append

/-- The last request is recorded last. -/
theorem survivors_concat (requests : List Request) (request : Request) :
    survivors (requests ++ [request]) = request.record (survivors requests) := List.foldl_append

/-! ## What a path holds -/

theorem heldIn_eq_nil_iff : heldIn log path = [] ↔ ∀ e ∈ log, e.1 ≠ path := by
  simp [heldIn, List.filter_eq_nil_iff]

/-- What a path holds after one more registration. -/
theorem heldIn_concat (log : List Registration) (path other : String) (x : Target) :
    heldIn (log ++ [(path, x)]) other = heldIn log other ++ if other = path then [x] else [] := by
  by_cases h : path = other
  · simp [heldIn, h]
  · simp [heldIn, h, Ne.symm h]

theorem heldIn_filter_self (log : List Registration) (path : String) :
    heldIn (log.filter fun e => e.1 ≠ path) path = [] :=
  heldIn_eq_nil_iff.2 fun e he => by simpa using (List.mem_filter.1 he).2

theorem heldIn_filter_of_ne (h : other ≠ path) (log : List Registration) :
    heldIn (log.filter fun e => e.1 ≠ path) other = heldIn log other := by
  rw [heldIn, heldIn, List.filter_filter]
  congr 2
  funext e
  by_cases he : e.1 = other
  · simp [he, h]
  · simp [he]

/-- Among the targets of its path, the first equal one goes. -/
theorem heldIn_eraseP_self (log : List Registration) (path : String) (x : Target) :
    heldIn (log.eraseP (Registration.hits path x)) path = (heldIn log path).eraseP (·.same x) := by
  induction log with
  | nil => rfl
  | cons e log ih =>
    unfold heldIn at ih ⊢
    by_cases hpath : e.1 = path
    · cases hsame : e.2.same x with
      | true => simp [Registration.hits, hpath, hsame]
      | false => simp [Registration.hits, hpath, hsame, ih]
    · simp [Registration.hits, hpath, ih]

theorem heldIn_eraseP_of_ne (h : other ≠ path) (log : List Registration) (x : Target) :
    heldIn (log.eraseP (Registration.hits path x)) other = heldIn log other := by
  induction log with
  | nil => rfl
  | cons e log ih =>
    unfold heldIn at ih ⊢
    cases hhit : Registration.hits path x e with
    | true =>
      have hpath : e.1 = path := by
        simp only [Registration.hits, Bool.and_eq_true, beq_iff_eq] at hhit
        exact hhit.1
      simp [hhit, hpath, Ne.symm h]
    | false => by_cases hother : e.1 = other <;> simp [hhit, hother, ih]

/-! ## One request -/

/-- Every request leaves a tidy registry. -/
theorem tidy_serve (h : r.Tidy) (request : Request) : (r.serve request).Tidy := by
  cases request with
  | register path x => exact h.register path x
  | unregister path =>
    exact
      { single := h.single
        nodup := h.nodup.sublist (List.filter_sublist.map Prod.fst)
        filled := fun hm => h.filled (Assoc.mem_erase_iff.1 hm).1 }
  | unregisterTarget path x => exact h.unregister path x

/-- A registry that holds at each path what a log has there still does after a request. -/
theorem targetsAt_serve (h : r.Tidy) (hlog : ∀ path, r.targetsAt path = heldIn log path)
    (request : Request) (path : String) :
    (r.serve request).targetsAt path = heldIn (request.record log) path := by
  cases request with
  | register at_ x =>
    rw [serve, Request.record, heldIn_concat, ← hlog]
    by_cases hp : path = at_
    · rw [hp, targetsAt_register_self, if_pos rfl]
    · rw [targetsAt_register_of_ne hp, if_neg hp, List.append_nil]
  | unregister at_ =>
    rw [serve, Request.record]
    by_cases hp : path = at_
    · rw [hp, targetsAt_unregister_self, heldIn_filter_self]
    · rw [targetsAt_unregister_of_ne hp, heldIn_filter_of_ne hp, hlog]
  | unregisterTarget at_ x =>
    rw [serve, Request.record, h.unregisterTarget_eq]
    by_cases hp : path = at_
    · rw [hp, targetsAt_unregisterFirst_self, heldIn_eraseP_self, hlog]
    · rw [targetsAt_unregisterFirst_of_ne hp, heldIn_eraseP_of_ne hp, hlog]

/-- A path is kept as long as it holds something. -/
theorem mem_paths_iff (h : r.Tidy) : path ∈ r.paths ↔ r.targetsAt path ≠ [] := by
  rw [paths, targetsAt]
  cases hget : Assoc.get? path r.entries with
  | none => simpa using Assoc.get?_eq_none_iff.1 hget
  | some targets =>
    have hmem := Assoc.mem_of_get?_eq_some hget
    simpa [h.filled hmem] using Assoc.mem_keys_of_mem hmem

/-- A request appends a new path or takes away paths; the others stay in order. -/
theorem paths_serve (r : Registry) (request : Request) :
    (r.serve request).paths.Sublist r.paths
      ∨ ∃ path, path ∉ r.paths ∧ (r.serve request).paths = r.paths ++ [path] := by
  have herase : ∀ path, (r.unregister path).paths.Sublist r.paths := fun path =>
    List.filter_sublist.map Prod.fst
  cases request with
  | register path x =>
    rw [serve, paths, register, Assoc.modify, Assoc.keys_insert]
    split
    · exact .inl (.refl _)
    · next hc =>
      rw [Bool.not_eq_true, Assoc.contains_eq_false_iff] at hc
      exact .inr ⟨path, hc, rfl⟩
  | unregister path => exact .inl (herase path)
  | unregisterTarget path x =>
    refine .inl ?_
    simp only [serve, unregisterTarget]
    split
    · unfold unregisterFirst
      split
      · exact .refl _
      · next targets hget =>
        split
        · exact herase path
        · rw [paths, Assoc.keys_insert, Assoc.contains, hget, Option.isSome_some, if_pos rfl]
          exact .refl _
    · exact herase path

/-! ## A history of requests -/

/-- The registry is tidy after all requests. -/
theorem tidy_run (requests : List Request) : (run requests).Tidy := by
  induction requests using List.reverseRecOn with
  | nil => exact tidy_empty
  | append_singleton requests request ih =>
    rw [run_concat]
    exact tidy_serve ih request

/-- **A path holds its survivors**, in the order of their registration. -/
theorem targetsAt_run (requests : List Request) (path : String) :
    (run requests).targetsAt path = heldIn (survivors requests) path := by
  induction requests using List.reverseRecOn generalizing path with
  | nil => rfl
  | append_singleton requests request ih =>
    rw [run_concat, survivors_concat]
    exact targetsAt_serve (tidy_run requests) ih request path

/-- The paths that are kept are those of the survivors. -/
theorem mem_paths_run :
    path ∈ (run requests).paths ↔ heldIn (survivors requests) path ≠ [] := by
  rw [mem_paths_iff (tidy_run requests), targetsAt_run]

/-- Earlier requests fill the same paths, whatever is asked later. -/
theorem filled_concat_iff {n : Nat} (hn : n < requests.length) :
    Filled (requests ++ [request]) path n ↔ Filled requests path n := by
  have hlength : n < (requests ++ [request]).length := by
    rw [List.length_append]
    omega
  rw [Filled, Filled, List.take_append_of_le_length (by omega),
    List.take_append_of_le_length (by omega)]
  exact and_congr_left fun _ => iff_of_true hlength hn

/-- A request that finds a path filled does not fill it. -/
theorem LastFilled.concat {n : Nat} (h : LastFilled requests path n)
    (hheld : heldIn (survivors requests) path ≠ []) :
    LastFilled (requests ++ [request]) path n := by
  refine ⟨(filled_concat_iff h.1.1).2 h.1, fun m hm hfilled => ?_⟩
  have hlength := hfilled.1
  rw [List.length_append, List.length_singleton] at hlength
  obtain hlt | rfl := Nat.lt_or_eq_of_le (Nat.le_of_lt_succ hlength)
  · exact h.2 m hm ((filled_concat_iff hlt).1 hfilled)
  · rw [Filled, List.take_append_of_le_length (Nat.le_refl _), List.take_length] at hfilled
    exact hheld hfilled.2.1

/-- A path that holds something only since the last request is filled by it. -/
theorem lastFilled_length (hbefore : heldIn (survivors requests) path = [])
    (hafter : heldIn (survivors (requests ++ [request])) path ≠ []) :
    LastFilled (requests ++ [request]) path requests.length := by
  refine ⟨⟨by simp, by simpa using hbefore, ?_⟩, fun m hm hfilled => ?_⟩
  · rwa [List.take_of_length_le (by simp)]
  · have hlength := hfilled.1
    rw [List.length_append, List.length_singleton] at hlength
    omega

/-- Every path that is kept has been filled. -/
theorem exists_lastFilled (h : path ∈ (run requests).paths) : ∃ n, LastFilled requests path n := by
  induction requests using List.reverseRecOn with
  | nil => cases h
  | append_singleton requests request ih =>
    by_cases hbefore : path ∈ (run requests).paths
    · obtain ⟨n, hn⟩ := ih hbefore
      exact ⟨n, hn.concat (mem_paths_run.1 hbefore)⟩
    · exact ⟨_, lastFilled_length (by simpa [mem_paths_run] using hbefore) (mem_paths_run.1 h)⟩

/-- **Paths come in the order in which they were last filled.** -/
theorem paths_run (requests : List Request) :
    (run requests).paths.Pairwise fun p q =>
      ∃ m n, LastFilled requests p m ∧ LastFilled requests q n ∧ m < n := by
  induction requests using List.reverseRecOn with
  | nil => exact .nil
  | append_singleton requests request ih =>
    -- paths that stay were filled when they were before
    have hstay : (run requests).paths.Pairwise fun p q =>
        ∃ m n, LastFilled (requests ++ [request]) p m ∧ LastFilled (requests ++ [request]) q n
          ∧ m < n :=
      ih.imp_of_mem fun hp hq ⟨m, n, hm, hn, hlt⟩ =>
        ⟨m, n, hm.concat (mem_paths_run.1 hp), hn.concat (mem_paths_run.1 hq), hlt⟩
    obtain hsub | ⟨path, hnew, hpaths⟩ := paths_serve (run requests) request
    · rw [run_concat]
      exact hstay.sublist hsub
    · have hmem : path ∈ (run (requests ++ [request])).paths := by
        rw [run_concat, hpaths]
        exact List.mem_append_right _ List.mem_cons_self
      have hlast : LastFilled (requests ++ [request]) path requests.length :=
        lastFilled_length (by simpa [mem_paths_run] using hnew) (mem_paths_run.1 hmem)
      rw [run_concat, hpaths]
      refine List.pairwise_append.2 ⟨hstay, List.pairwise_singleton _ _, fun p hp q hq => ?_⟩
      obtain rfl := List.mem_singleton.1 hq
      obtain ⟨m, hm⟩ := exists_lastFilled hp
      exact ⟨m, requests.length, hm.concat (mem_paths_run.1 hp), hlast, hm.1.1⟩

/-! ## Queries -/

/-- Some paths, each once, hold what a log has under them. -/
theorem flatMap_heldIn_perm {ps : List String} (h : ps.Nodup) (log : List Registration) :
    (ps.flatMap (heldIn log)).Perm ((log.filter fun e => e.1 ∈ ps).map Prod.snd) := by
  induction ps with
  | nil => simp
  | cons p ps ih =>
    obtain ⟨hp, h⟩ := List.nodup_cons.1 h
    have hself : (log.filter fun e => e.1 ∈ p :: ps).filter (fun e => e.1 = p)
        = log.filter fun e => e.1 = p := by
      rw [List.filter_filter]
      congr 1
      funext e
      by_cases he : e.1 = p <;> simp [he]
    have hothers : (log.filter fun e => e.1 ∈ p :: ps).filter (fun e => !decide (e.1 = p))
        = log.filter fun e => e.1 ∈ ps := by
      rw [List.filter_filter]
      congr 1
      funext e
      by_cases he : e.1 = p <;> simp [he, hp]
    have hsplit := List.filter_append_perm (fun e => e.1 = p) (log.filter fun e => e.1 ∈ p :: ps)
    rw [hself, hothers] at hsplit
    rw [List.flatMap_cons]
    refine ((ih h).append_left (heldIn log p)).trans ?_
    rw [heldIn, ← List.map_append]
    exact hsplit.map Prod.snd

/-- Those that do not count contribute nothing. -/
theorem flatMap_filter (p : String → Bool) (f : String → List Target) (ps : List String) :
    (ps.filter p).flatMap f = ps.flatMap fun a => if p a then f a else [] := by
  induction ps with
  | nil => rfl
  | cons a ps ih => cases hp : p a <;> simp [hp, ih]

/-- In a tidy registry a lookup collects the targets of all matching paths. -/
theorem lookup_of_tidy (h : r.Tidy) (query : String) (caller : Option String) :
    r.lookup query caller
      = (r.paths.filter fun p => Path.Matches (Path.resolve query.toList (caller.map String.toList))
          (Path.segments p.toList)).flatMap r.targetsAt := by
  rw [flatMap_filter, lookup, paths, Assoc.keys, List.flatMap_map]
  refine List.flatMap_congr fun e he => ?_
  have htargets : r.targetsAt e.1 = e.2 := by
    rw [targetsAt, Assoc.get?_eq_some_of_mem h.nodup he]
    rfl
  simp [htargets, Path.answers_iff]

/-- **A query is answered by the survivors that match it**, path by path. -/
theorem lookup_run (requests : List Request) (query : String) (caller : Option String) :
    (run requests).lookup query caller
      = ((run requests).paths.filter fun p =>
          Path.Matches (Path.resolve query.toList (caller.map String.toList))
            (Path.segments p.toList)).flatMap (heldIn (survivors requests)) := by
  rw [lookup_of_tidy (tidy_run requests), funext (targetsAt_run requests)]

/-- Each of them comes once. -/
theorem lookup_run_perm (requests : List Request) (query : String) (caller : Option String) :
    ((run requests).lookup query caller).Perm
      (((survivors requests).filter fun e =>
        Path.Matches (Path.resolve query.toList (caller.map String.toList))
          (Path.segments e.1.toList)).map Prod.snd) := by
  rw [lookup_run]
  refine (flatMap_heldIn_perm ((tidy_run requests).nodup.filter _) _).trans ?_
  have hmem : ∀ e ∈ survivors requests, e.1 ∈ (run requests).paths := fun e he =>
    mem_paths_run.2 fun hnil => heldIn_eq_nil_iff.1 hnil e he rfl
  rw [List.filter_congr fun e he => ?_]
  rw [decide_eq_decide, List.mem_filter, decide_eq_true_eq]
  exact and_iff_right (hmem e he)

/-- **A registry refines the log of registrations.**  After any requests, a path holds its
survivors in the order of their registration; the paths of survivors are kept, each once,
in the order in which they were last filled, and no others; and a query, seen from any
caller, is answered by the survivors that match it, each once, path by path. -/
theorem run_refines_log (requests : List Request) :
    (∀ path,
      (run requests).targetsAt path = heldIn (survivors requests) path
      ∧ ((run requests).contains path = true ↔ heldIn (survivors requests) path ≠ [])
      ∧ (path ∈ (run requests).paths ↔ heldIn (survivors requests) path ≠ []))
    ∧ (run requests).paths.Nodup
    ∧ ((run requests).paths.Pairwise fun p q =>
        ∃ m n, LastFilled requests p m ∧ LastFilled requests q n ∧ m < n)
    ∧ (run requests).size = ((survivors requests).map Prod.fst).dedup.length
    ∧ ((run requests).isEmpty = true ↔ survivors requests = [])
    ∧ ∀ query caller,
      (run requests).lookup query caller
        = ((run requests).paths.filter fun p =>
            Path.Matches (Path.resolve query.toList (caller.map String.toList))
              (Path.segments p.toList)).flatMap (heldIn (survivors requests))
      ∧ ((run requests).lookup query caller).Perm
          (((survivors requests).filter fun e =>
            Path.Matches (Path.resolve query.toList (caller.map String.toList))
              (Path.segments e.1.toList)).map Prod.snd) := by
  have hnodup : (run requests).paths.Nodup := (tidy_run requests).nodup
  have hcontains : ∀ path, (run requests).contains path = true ↔ path ∈ (run requests).paths := by
    intro path
    rw [← not_iff_not, Bool.not_eq_true, contains, Assoc.contains_eq_false_iff]
    rfl
  have hpaths : (run requests).paths.Perm ((survivors requests).map Prod.fst).dedup := by
    refine (List.perm_ext_iff_of_nodup hnodup (List.nodup_dedup _)).2 fun path => ?_
    rw [mem_paths_run, List.mem_dedup, ne_eq, heldIn_eq_nil_iff]
    simp
  have hsize : (run requests).size = ((survivors requests).map Prod.fst).dedup.length := by
    rw [← hpaths.length_eq, size, paths, Assoc.keys, List.length_map]
  refine ⟨fun path => ⟨targetsAt_run requests path, (hcontains path).trans mem_paths_run,
    mem_paths_run⟩, hnodup, paths_run requests, hsize, ?_,
    fun query caller => ⟨lookup_run requests query caller, lookup_run_perm requests query caller⟩⟩
  rw [isEmpty, List.isEmpty_iff_length_eq_zero, ← size, hsize, List.length_eq_zero_iff,
    List.dedup_eq_nil, List.map_eq_nil_iff]

/-- Seen from the state of one port, the names of all ports are asked for without a predicate,
and with it the name of one. -/
example :
    let r := run [.register "/ports/port[id='a/b']/name" (.element ⟨1⟩),
      .register "/ports/port[id='c']/name" (.element ⟨2⟩)]
    let caller := some "/ports/port[id='a/b']/state"
    (r.lookup "../../port/name" caller).map Target.outline
        = ["Element(ElementId(1))", "Element(ElementId(2))"] ∧
      (r.lookup "../../port[id='c']/name" caller).map Target.outline = ["Element(ElementId(2))"] ∧
      (r.lookup "../../port" caller).map Target.outline = [] := by decide +kernel

/-- Keyless siblings share a path; dropping one leaves the others. -/
example : (run [.register "/l" (.element ⟨1⟩), .register "/l" (.element ⟨2⟩),
      .unregisterTarget "/l" (.element ⟨1⟩)]).paths = ["/l"] := by decide +kernel

end Registry

end DataTree
