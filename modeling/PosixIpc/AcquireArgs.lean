/-
# The arguments of a blocking call (`py_wait.c`, `py_mutex.c`, `py_queue.c`)

`posixipc_parse_acquire` reads the arguments of nearly all blocking calls.  `mutex_acquire` and
`parse_nmq_put` have copies of it, one with a check of the handle in the middle and one with a
priority.

* `AcquireParser` : what the three have in common, and in what they differ;
* `parse_acquire_iff` : which arguments are accepted, and what they mean;
* `parsers_agree` : the copies accept the same arguments, up to the handle and the priority.

An object is what the conversions of Python make of it, which may raise.
-/
import PosixIpc.LayoutAdd

namespace PosixIpc

/-! ## Arguments -/

/-- A `double`. -/
inductive CDouble
  | nan
  | num (x : ℚ)
  | inf
  | negInf
  deriving DecidableEq

namespace CDouble

/-- `timeout != timeout || timeout < 0.0`. -/
def refused : CDouble → Bool
  | nan => true
  | num x => decide (x < 0)
  | inf => false
  | negInf => true

/-- `timeout > 0.0`. -/
def positive : CDouble → Bool
  | nan => false
  | num x => decide (0 < x)
  | inf => true
  | negInf => false

end CDouble

/-- An object, as the conversions see it; `none` is an exception. -/
structure PyArg where
  /-- It is `None`. -/
  isNone : Bool
  /-- `PyObject_IsTrue`. -/
  truth : Option Bool
  /-- `PyFloat_AsDouble`. -/
  double : Option CDouble
  /-- `PyLong_AsUnsignedLong`. -/
  unsignedLong : Option ℕ
  deriving DecidableEq

/-- `None`. -/
def PyArg.none : PyArg := ⟨true, some false, .none, .none⟩

/-- A keyword argument.  The key is the C string of `PyUnicode_AsUTF8`, which ends at the first
zero. -/
structure Keyword where
  key : Option String
  val : PyArg
  deriving DecidableEq

structure PyArgs where
  positional : List PyArg
  keywords : List Keyword
  deriving DecidableEq

/-- `posixipc_acquire_opts`, with the `double` as it is, and the priority of a message. -/
structure ParsedOpts where
  timeoutNone : Bool
  timeout : CDouble
  blocking : Bool
  interruptible : Bool
  priority : ℕ
  deriving DecidableEq

/-! ## The parsers -/

/-- A parser of the arguments of a blocking call: the texts of its errors, and whether `priority`
is a keyword. -/
structure AcquireParser where
  tooMany : String
  multiple : String
  unexpected : String
  takesPriority : Bool

/-- What the loop over the keywords has found. -/
structure ParseState where
  timeoutObj : PyArg
  blocking : Bool
  interruptible : Bool
  priority : ℕ
  deriving DecidableEq

namespace AcquireParser

variable (p : AcquireParser)

/-- One turn of the loop over the keywords. -/
def keyword (nargs : ℕ) (st : ParseState) (k : Keyword) : Except PyError ParseState :=
  match k.key with
  | none => .error .pending
  | some key =>
    if key = "timeout" then
      if 1 ≤ nargs then .error (.typeError p.multiple) else .ok { st with timeoutObj := k.val }
    else if key = "blocking" then
      match k.val.truth with
      | none => .error .pending
      | some b => .ok { st with blocking := b }
    else if key = "interruptible" then
      match k.val.truth with
      | none => .error .pending
      | some b => .ok { st with interruptible := b }
    else if p.takesPriority ∧ key = "priority" then
      match k.val.unsignedLong with
      | none => .error .pending
      -- `(unsigned)v`
      | some v => .ok { st with priority := v % 2 ^ 32 }
    else .error (.typeError (p.unexpected ++ "'" ++ key ++ "'"))

/-- The conversion of the timeout, and the last check. -/
def timeout (st : ParseState) : Except PyError ParsedOpts :=
  if st.timeoutObj.isNone then .ok ⟨true, .num 0, st.blocking, st.interruptible, st.priority⟩
  else
    match st.timeoutObj.double with
    | none => .error .pending
    | some x =>
      if x.refused then .error (.valueError "timeout must be non-negative")
      else if !st.blocking && x.positive then
        .error (.valueError "can't specify a timeout for a non-blocking call")
      else .ok ⟨false, x, st.blocking, st.interruptible, st.priority⟩

/-- The parser on the arguments of a call; `check` is what a check of the handle between the
keywords and the timeout raises. -/
def parse (check : Option PyError) (a : PyArgs) : Except PyError ParsedOpts :=
  if 1 < a.positional.length then .error (.typeError p.tooMany)
  else
    match a.keywords.foldlM (p.keyword a.positional.length)
      ⟨a.positional.head?.getD .none, true, true, 0⟩ with
    | .error e => .error e
    | .ok st =>
      match check with
      | some e => .error e
      | none => timeout st

end AcquireParser

/-- The texts of `posixipc_parse_acquire`. -/
def acquireParser : AcquireParser :=
  ⟨"takes at most 1 positional argument", "got multiple values for argument 'timeout'",
    "unexpected keyword argument ", false⟩

/-- The texts of `mutex_acquire`. -/
def mutexParser : AcquireParser :=
  ⟨"acquire() takes at most 1 positional argument",
    "acquire() got multiple values for argument 'timeout'",
    "acquire() got an unexpected keyword argument ", false⟩

/-- The texts of `parse_nmq_put`, which has a priority. -/
def nmqPutParser : AcquireParser :=
  ⟨"put() takes at most 1 positional argument", "got multiple values for argument 'timeout'",
    "unexpected keyword argument ", true⟩

/-- `posixipc_parse_acquire`. -/
def posixipcParseAcquire : PyArgs → Except PyError ParsedOpts := acquireParser.parse none

/-- `mutex_acquire` up to its first attempt; `check` is what `mutex_check_open` raises. -/
def mutexAcquireArgs (check : Option PyError) : PyArgs → Except PyError ParsedOpts :=
  mutexParser.parse check

/-- `parse_nmq_put`. -/
def parseNmqPut : PyArgs → Except PyError ParsedOpts := nmqPutParser.parse none

/-! ## The loop over the keywords -/

/-- The keyword is one that the parser takes, and its value can be converted. -/
def AcquireParser.accepts (p : AcquireParser) (nargs : ℕ) (k : Keyword) : Bool :=
  k.key = some "timeout" && nargs = 0 ||
    (k.key = some "blocking" || k.key = some "interruptible") && k.val.truth.isSome ||
    p.takesPriority && (k.key = some "priority") && k.val.unsignedLong.isSome

/-- What an accepted keyword does. -/
def ParseState.set (st : ParseState) (k : Keyword) : ParseState where
  timeoutObj := if k.key = some "timeout" then k.val else st.timeoutObj
  blocking := if k.key = some "blocking" then k.val.truth.getD true else st.blocking
  interruptible := if k.key = some "interruptible" then k.val.truth.getD true else st.interruptible
  priority := if k.key = some "priority" then k.val.unsignedLong.getD 0 % 2 ^ 32 else st.priority

/-- The value of the last of the keywords that has the key. -/
def lastOf (key : String) (kws : List Keyword) : Option PyArg :=
  (kws.reverse.find? fun k => k.key = some key).map Keyword.val

theorem lastOf_append (key : String) (kws : List Keyword) (k : Keyword) :
    lastOf key (kws ++ [k]) = if k.key = some key then some k.val else lastOf key kws := by
  unfold lastOf
  by_cases hk : k.key = some key
  · simp [hk]
  · simp [hk]

section Loop

variable {p : AcquireParser} {nargs : ℕ} {st st' : ParseState} {k : Keyword}

/-- **One turn**: it goes on just with the keywords that are accepted. -/
theorem keyword_ok_iff :
    p.keyword nargs st k = .ok st' ↔ p.accepts nargs k = true ∧ st' = st.set k := by
  obtain ⟨key, val⟩ := k
  cases key with
  | none => simp [AcquireParser.keyword, AcquireParser.accepts]
  | some key =>
    by_cases ht : key = "timeout"
    · subst ht
      by_cases hn : 1 ≤ nargs
      · simp [AcquireParser.keyword, AcquireParser.accepts, hn]
        omega
      · obtain rfl : nargs = 0 := by omega
        simp only [AcquireParser.keyword, AcquireParser.accepts, ParseState.set]
        simp [eq_comm (a := st')]
    · by_cases hb : key = "blocking"
      · subst hb
        cases hv : val.truth with
        | none => simp [AcquireParser.keyword, AcquireParser.accepts, hv]
        | some b =>
          simp only [AcquireParser.keyword, AcquireParser.accepts, ParseState.set, hv]
          simp [eq_comm (a := st')]
      · by_cases hi : key = "interruptible"
        · subst hi
          cases hv : val.truth with
          | none => simp [AcquireParser.keyword, AcquireParser.accepts, hv]
          | some b =>
            simp only [AcquireParser.keyword, AcquireParser.accepts, ParseState.set, hv]
            simp [eq_comm (a := st')]
        · by_cases hp : p.takesPriority = true ∧ key = "priority"
          · obtain ⟨hp, rfl⟩ := hp
            cases hv : val.unsignedLong with
            | none => simp [AcquireParser.keyword, AcquireParser.accepts, hv, hp]
            | some v =>
              simp only [AcquireParser.keyword, AcquireParser.accepts, ParseState.set, hv, hp]
              simp [eq_comm (a := st')]
          · have hacc : p.accepts nargs ⟨some key, val⟩ = false := by
              simp [AcquireParser.accepts, ht, hb, hi]
              tauto
            simp [AcquireParser.keyword, hacc, ht, hb, hi, hp]

/-- **The loop**: it ends just if all keywords are accepted. -/
theorem keywords_ok_iff {kws : List Keyword} :
    kws.foldlM (p.keyword nargs) st = .ok st' ↔
      (∀ k ∈ kws, p.accepts nargs k = true) ∧ st' = kws.foldl ParseState.set st := by
  induction kws generalizing st with
  | nil => simp [pure, Except.pure, eq_comm (a := st')]
  | cons k kws ih =>
    rw [List.foldlM_cons]
    cases hk : p.keyword nargs st k with
    | error e =>
      have hno : p.accepts nargs k ≠ true := fun hacc => by
        have hok : p.keyword nargs st k = .ok (st.set k) := keyword_ok_iff.mpr ⟨hacc, rfl⟩
        rw [hk] at hok
        cases hok
      simp [bind, Except.bind, hno]
    | ok st₁ =>
      obtain ⟨hacc, rfl⟩ := keyword_ok_iff.mp hk
      simp [bind, Except.bind, ih, hacc]

/-- The last keyword of a key counts. -/
theorem foldl_set (kws : List Keyword) (st : ParseState) :
    kws.foldl ParseState.set st =
      ⟨(lastOf "timeout" kws).getD st.timeoutObj,
        ((lastOf "blocking" kws).map fun v => v.truth.getD true).getD st.blocking,
        ((lastOf "interruptible" kws).map fun v => v.truth.getD true).getD st.interruptible,
        ((lastOf "priority" kws).map fun v => v.unsignedLong.getD 0 % 2 ^ 32).getD
          st.priority⟩ := by
  induction kws using List.reverseRecOn with
  | nil => rfl
  | append_singleton kws k ih =>
    rw [List.foldl_append, ih]
    simp only [List.foldl_cons, List.foldl_nil, ParseState.set, lastOf_append]
    congr 1 <;> split_ifs <;> rfl

end Loop

/-! ## What the arguments mean -/

namespace PyArgs

/-- The object that the timeout is read from. -/
def timeoutObj (a : PyArgs) : PyArg :=
  (lastOf "timeout" a.keywords).getD (a.positional.head?.getD .none)

/-- A flag of the call, which is set by default. -/
def flag (a : PyArgs) (key : String) : Bool :=
  ((lastOf key a.keywords).map fun v => v.truth.getD true).getD true

/-- The priority as the parser stores it. -/
def priority (a : PyArgs) : ℕ :=
  ((lastOf "priority" a.keywords).map fun v => v.unsignedLong.getD 0 % 2 ^ 32).getD 0

/-- **The meaning of the arguments of a blocking call.** -/
structure Means (p : AcquireParser) (a : PyArgs) (o : ParsedOpts) : Prop where
  positional : a.positional.length ≤ 1
  keywords : ∀ k ∈ a.keywords, p.accepts a.positional.length k = true
  timeout : if a.timeoutObj.isNone then o.timeoutNone = true ∧ o.timeout = .num 0
    else o.timeoutNone = false ∧ a.timeoutObj.double = some o.timeout ∧ o.timeout.refused = false ∧
      (o.timeout.positive = true → o.blocking = true)
  blocking : o.blocking = a.flag "blocking"
  interruptible : o.interruptible = a.flag "interruptible"
  priority : o.priority = a.priority

/-- The arguments without the priorities. -/
def dropPriority (a : PyArgs) : PyArgs :=
  { a with keywords := a.keywords.filter fun k => k.key ≠ some "priority" }

end PyArgs

section Meaning

variable {p : AcquireParser} {check : Option PyError} {a : PyArgs} {o : ParsedOpts}

/-- The end of a parser. -/
theorem timeout_ok_iff {st : ParseState} :
    AcquireParser.timeout st = .ok o ↔
      (if st.timeoutObj.isNone then o.timeoutNone = true ∧ o.timeout = .num 0
        else o.timeoutNone = false ∧ st.timeoutObj.double = some o.timeout ∧
          o.timeout.refused = false ∧ (o.timeout.positive = true → o.blocking = true)) ∧
      o.blocking = st.blocking ∧ o.interruptible = st.interruptible ∧ o.priority = st.priority := by
  obtain ⟨tn, t, b, i, pr⟩ := o
  unfold AcquireParser.timeout
  by_cases hnone : st.timeoutObj.isNone = true
  · simp only [hnone, if_true, Except.ok.injEq, ParsedOpts.mk.injEq]
    tauto
  · simp only [hnone]
    cases hd : st.timeoutObj.double with
    | none => simp
    | some x =>
      by_cases hr : x.refused = true
      · simp only [hr, if_true]
        constructor
        · intro h
          cases h
        · rintro ⟨⟨-, hx, hno, -⟩, -⟩
          obtain rfl : x = t := by simpa using hx
          simp [hr] at hno
      · by_cases hblock : (!st.blocking && x.positive) = true
        · simp only [hr, hblock]
          constructor
          · intro h
            cases h
          · rintro ⟨⟨-, hx, -, hpos⟩, hb, -, -⟩
            obtain rfl : x = t := by simpa using hx
            simp only [Bool.and_eq_true, Bool.not_eq_true'] at hblock
            have hb' := hpos hblock.2
            simp [hblock.1, hb'] at hb
        · simp only [hr, hblock]
          constructor
          · intro h
            obtain ⟨rfl, rfl, rfl, rfl, rfl⟩ : false = tn ∧ x = t ∧ st.blocking = b ∧
                st.interruptible = i ∧ st.priority = pr := by simpa using h
            refine ⟨⟨rfl, rfl, by simpa using hr, fun hpos => ?_⟩, rfl, rfl, rfl⟩
            simpa [hpos] using hblock
          · rintro ⟨⟨rfl, hx, -, -⟩, rfl, rfl, rfl⟩
            obtain rfl : x = t := by simpa using hx
            rfl

/-- **What a parser accepts, and what it makes of it.** -/
theorem parse_ok_iff : p.parse check a = .ok o ↔ check = none ∧ a.Means p o := by
  unfold AcquireParser.parse
  by_cases hlen : 1 < a.positional.length
  · simp only [hlen, if_true]
    refine ⟨fun h => (by cases h), fun h => ?_⟩
    exact absurd h.2.positional (by omega)
  · rw [if_neg hlen]
    cases hloop : a.keywords.foldlM (p.keyword a.positional.length)
        ⟨a.positional.head?.getD .none, true, true, 0⟩ with
    | error e =>
      refine ⟨fun h => (by cases h), fun h => ?_⟩
      have hok := hloop.symm.trans (keywords_ok_iff.mpr ⟨h.2.keywords, rfl⟩)
      cases hok
    | ok st =>
      obtain ⟨hacc, hst⟩ := keywords_ok_iff.mp hloop
      rw [foldl_set] at hst
      cases check with
      | some e => exact ⟨fun h => (by cases h), fun h => (by cases h.1)⟩
      | none =>
        simp only [timeout_ok_iff, true_and, hst]
        constructor
        · rintro ⟨ht, hb, hi, hp⟩
          exact ⟨by omega, hacc, ht, hb, hi, hp⟩
        · intro h
          exact ⟨h.timeout, h.blocking, h.interruptible, h.priority⟩

/-- **`posixipc_parse_acquire`**: a call is accepted just if it has at most one positional argument
and no keyword but the three, `timeout` not twice, every value can be converted, and the timeout is
`None` or neither negative nor `nan`, and not positive for a call that does not block. -/
theorem parse_acquire_iff (a : PyArgs) (o : ParsedOpts) :
    posixipcParseAcquire a = .ok o ↔ a.Means acquireParser o :=
  parse_ok_iff.trans (and_iff_right rfl)

/-! ## The copies -/

theorem lastOf_dropPriority (key : String) (hkey : key ≠ "priority") (kws : List Keyword) :
    lastOf key (kws.filter fun k => k.key ≠ some "priority") = lastOf key kws := by
  unfold lastOf
  rw [← List.filter_reverse, List.find?_filter]
  congr 2
  funext k
  by_cases hk : k.key = some key
  · simp [hk, hkey]
  · simp [hk]

theorem lastOf_priority_dropPriority (kws : List Keyword) :
    lastOf "priority" (kws.filter fun k => k.key ≠ some "priority") = none := by
  unfold lastOf
  rw [← List.filter_reverse, List.find?_filter]
  simp

/-- Two parsers that take the same keywords. -/
theorem PyArgs.Means.congr {p p' : AcquireParser} (hm : a.Means p o)
    (h : p.takesPriority = p'.takesPriority) : a.Means p' o where
  positional := hm.positional
  keywords k hk := by
    have hacc := hm.keywords k hk
    unfold AcquireParser.accepts at hacc ⊢
    rw [← h]
    exact hacc
  timeout := hm.timeout
  blocking := hm.blocking
  interruptible := hm.interruptible
  priority := hm.priority

/-- A keyword of a parser with a priority. -/
theorem nmqPutParser_accepts_iff (nargs : ℕ) (k : Keyword) :
    nmqPutParser.accepts nargs k = true ↔
      if k.key = some "priority" then k.val.unsignedLong.isSome = true
      else acquireParser.accepts nargs k = true := by
  unfold AcquireParser.accepts
  by_cases hk : k.key = some "priority"
  · simp [hk, nmqPutParser]
  · simp [hk, acquireParser]

/-- **The copies of the parser agree**: `mutex_acquire` accepts what `posixipc_parse_acquire`
accepts, as long as its check of the handle passes; `NamedMessageQueue.put` accepts the same
arguments with priorities, of which it keeps the last, modulo `2 ^ 32`. -/
theorem parsers_agree (check : Option PyError) (a : PyArgs) (o : ParsedOpts) :
    (mutexAcquireArgs check a = .ok o ↔ check = none ∧ posixipcParseAcquire a = .ok o) ∧
    (parseNmqPut a = .ok o ↔
      posixipcParseAcquire a.dropPriority = .ok { o with priority := 0 } ∧
      o.priority = a.priority ∧
      ∀ k ∈ a.keywords, k.key = some "priority" → k.val.unsignedLong.isSome = true) := by
  constructor
  · rw [mutexAcquireArgs, parse_ok_iff, parse_acquire_iff]
    exact and_congr_right fun _ => ⟨fun hm => hm.congr rfl, fun hm => hm.congr rfl⟩
  · rw [parseNmqPut, parse_ok_iff, parse_acquire_iff, and_iff_right rfl]
    have htimeout : a.dropPriority.timeoutObj = a.timeoutObj := by
      unfold PyArgs.timeoutObj PyArgs.dropPriority
      rw [lastOf_dropPriority _ (by decide)]
    have hflag : ∀ key, key ≠ "priority" → a.dropPriority.flag key = a.flag key := by
      intro key hkey
      unfold PyArgs.flag PyArgs.dropPriority
      rw [lastOf_dropPriority _ hkey]
    have hprio : a.dropPriority.priority = 0 := by
      unfold PyArgs.priority PyArgs.dropPriority
      rw [lastOf_priority_dropPriority]
      rfl
    constructor
    · intro hm
      refine ⟨⟨hm.positional, fun k hk => ?_, ?_, ?_, ?_, hprio.symm⟩, hm.priority,
        fun k hk hkey => ?_⟩
      · obtain ⟨hmem, hne⟩ := List.mem_filter.mp hk
        have hacc := (nmqPutParser_accepts_iff _ k).mp (hm.keywords k hmem)
        rwa [if_neg (by simpa using hne)] at hacc
      · rw [htimeout]
        exact hm.timeout
      · rw [hflag _ (by decide)]
        exact hm.blocking
      · rw [hflag _ (by decide)]
        exact hm.interruptible
      · have hacc := (nmqPutParser_accepts_iff _ k).mp (hm.keywords k hk)
        rwa [if_pos hkey] at hacc
    · rintro ⟨hm, hpriority, hall⟩
      refine ⟨hm.positional, fun k hk => ?_, ?_, ?_, ?_, hpriority⟩
      · rw [nmqPutParser_accepts_iff]
        split_ifs with hkey
        · exact hall k hk hkey
        · exact hm.keywords k (List.mem_filter.mpr ⟨hk, by simpa using hkey⟩)
      · rw [← htimeout]
        exact hm.timeout
      · rw [← hflag _ (by decide)]
        exact hm.blocking
      · rw [← hflag _ (by decide)]
        exact hm.interruptible

/-- `put(data, priority=2 ** 32 + 5)` sends with priority 5. -/
example : parseNmqPut ⟨[], [⟨some "priority", ⟨false, some true, some (.num 4294967301),
    some 4294967301⟩⟩]⟩ = .ok ⟨true, .num 0, true, true, 5⟩ := by decide +kernel

end Meaning

end PosixIpc
