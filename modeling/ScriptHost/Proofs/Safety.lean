import ScriptHost.Proofs.Secrecy

/-!
# Actions that keep secrets

An action is safe if everything that it does to the heap, whatever has happened in the meantime,
keeps the secret tables secret and unchanged, and if it passes on nothing that leads to one.
-/

set_option autoImplicit false

namespace ScriptHost.Lua

def Completion.Public (V : Vault) : Completion → Prop
  | .again values | .returned values => V.Shares values
  | .normal | .broke | .goto .. => True

theorem Completion.Public.mono {V W : Vault} {c : Completion} (wider : V.Wider W)
    (shared : c.Public V) : c.Public W := by
  cases c with
  | again values => exact wider.shares (a := values) shared
  | returned values => exact wider.shares (a := values) shared
  | normal => trivial
  | broke => trivial
  | goto label locals => trivial

instance : Disclosed Completion := ⟨Completion.Public, Completion.Public.mono⟩

namespace Vault

/-- Tables are added while the globals have the same metatable. -/
structure Near (V W : Vault) : Prop extends V.Later W where
  same : W.lookup? = V.lookup?

theorem Near.refl (V : Vault) : V.Near V := ⟨.refl V, rfl⟩

theorem Near.trans {V W X : Vault} (first : V.Near W) (second : W.Near X) : V.Near X :=
  ⟨first.toLater.trans second.toLater, second.same.trans first.same⟩

theorem Guards.near {V : Vault} {h after : Heap} (guards : V.Guards h)
    (passes : V.Passes h after) : V.Near (V.on after) :=
  ⟨guards.later passes, rfl⟩

/-- What scripts may ask: they know a manager only by a handle. -/
def Grants (V : Vault) : Request → Prop
  | .cachedKeys id? | .isCached id? _ | .clearEngines id? => V.Shares id?
  | _ => True

theorem Grants.mono {V W : Vault} {request : Request} (granted : V.Grants request)
    (later : V.Later W) : W.Grants request := by
  cases request with
  | cachedKeys id? => exact later.shares (a := id?) granted
  | isCached id? key => exact later.shares (a := id?) granted
  | clearEngines id? => exact later.shares (a := id?) granted
  | _ => trivial

theorem Grants.of_on {V : Vault} {h : Heap} {request : Request}
    (granted : (V.on h).Grants request) : V.Grants request := by
  cases request <;> exact granted

/-- An action keeps secrets. What it does next happens before the globals can get another metatable;
what it does after a call or a question may happen at any later time. -/
inductive Safe : Vault → Action → Prop where
  | done {V c} : V.Shares c → Safe V (.done c)
  | raise {V thrown} : V.Shares thrown → Safe V (.raise thrown)
  | heap {V change} :
      (∀ W h, V.Near W → W.Guards h → W.Passes h (change h).1) →
      (∀ W h, V.Near W → W.Guards h → Safe (W.on (change h).1) (change h).2) →
      Safe V (.heap change)
  | call {V f arguments site next} : V.Shares f → V.Shares arguments →
      (∀ W (values : List Value), V.Later W → W.Shares values → Safe W (next values)) →
      Safe V (.call f arguments site next)
  | tail {V f arguments site} : V.Shares f → V.Shares arguments → Safe V (.tail f arguments site)
  | loop {V body state next} : V.Shares state →
      (∀ W (state : List Value), V.Later W → W.Shares state → Safe W (body state)) →
      (∀ W, V.Later W → Safe W next) → Safe V (.loop body state next)
  | labelled {V body jump next} : Safe V body →
      (∀ W label locals action, V.Later W → jump label locals = some action → Safe W action) →
      (∀ W, V.Later W → Safe W next) → Safe V (.labelled body jump next)
  | closing {V value body next} : V.Shares value → Safe V body →
      (∀ W, V.Later W → Safe W next) → Safe V (.closing value body next)
  | protect {V body next} : Safe V body →
      (∀ W (result : Except Thrown (List Value)), V.Later W → W.Shares result →
        Safe W (next result)) → Safe V (.protect body next)
  | sites {V next} : (∀ sites, Safe V (next sites)) → Safe V (.sites next)
  | reserve {V bytes next} : Safe V next → Safe V (.reserve bytes next)
  | ask {V request next} : V.Grants request → (∀ W reply, V.Later W → Safe W (next reply)) →
      Safe V (.ask request next)
  | resume {V id arguments next} : V.Shares arguments →
      (∀ W (result : Except Thrown (List Value)), V.Later W → W.Shares result →
        Safe W (next result)) → Safe V (.resume id arguments next)
  | yield {V values next} : V.Shares values →
      (∀ W (values : List Value), V.Later W → W.Shares values → Safe W (next values)) →
      Safe V (.yield values next)
  | running {V next} : (∀ coroutine?, Safe V (next coroutine?)) → Safe V (.running next)
  | abandon {V id next} :
      (∀ W (values : List Value), V.Later W → W.Shares values → Safe W (next values)) →
      Safe V (.abandon id next)

theorem Safe.mono {V W : Vault} {action : Action} (safe : V.Safe action) (near : V.Near W) :
    W.Safe action := by
  have later := near.toLater
  induction safe generalizing W with
  | done shared => exact .done (later.shares shared)
  | raise shared => exact .raise (later.shares shared)
  | heap passes continues _ =>
      exact .heap (fun X h next => passes X h (near.trans next))
        (fun X h next => continues X h (near.trans next))
  | call f arguments continues _ =>
      exact .call (later.shares f) (later.shares arguments)
        fun X values next => continues X values (later.trans next)
  | tail f arguments => exact .tail (later.shares f) (later.shares arguments)
  | loop state body continues _ _ =>
      exact .loop (later.shares state) (fun X state next => body X state (later.trans next))
        fun X next => continues X (later.trans next)
  | labelled _ jump continues ih _ _ =>
      exact .labelled (ih near later)
        (fun X label locals action next => jump X label locals action (later.trans next))
        fun X next => continues X (later.trans next)
  | closing value _ continues ih _ =>
      exact .closing (later.shares value) (ih near later)
        fun X next => continues X (later.trans next)
  | protect _ continues ih _ =>
      exact .protect (ih near later) fun X result next => continues X result (later.trans next)
  | sites _ ih => exact .sites fun sites => ih sites near later
  | reserve _ ih => exact .reserve (ih near later)
  | ask granted continues _ =>
      exact .ask (granted.mono later) fun X reply next => continues X reply (later.trans next)
  | resume arguments continues _ =>
      exact .resume (later.shares arguments)
        fun X result next => continues X result (later.trans next)
  | yield values continues _ =>
      exact .yield (later.shares values) fun X values next => continues X values (later.trans next)
  | running _ ih => exact .running fun coroutine? => ih coroutine? near later
  | abandon continues _ => exact .abandon fun X values next => continues X values (later.trans next)

theorem Safe.ite {V : Vault} {c : Prop} [Decidable c] {first second : Action}
    (safe : V.Safe first) (safe' : V.Safe second) : V.Safe (if c then first else second) := by
  split
  · exact safe
  · exact safe'

/-! ## Parts of actions -/

variable {α β : Type} [Disclosed α] [Disclosed β] {V W : Vault}

/-- A part of an action is safe, and what it yields may be shared, whatever goes on safely after
it. -/
def Yields (V : Vault) (m : Eval α) : Prop :=
  ∀ W next, V.Later W → (∀ X a, W.Later X → X.Shares a → X.Safe (next a)) → W.Safe (m next)

/-- A part of an action is safe, and ends with an error whatever goes on after it. -/
def Refuses {α : Type} (V : Vault) (m : Eval α) : Prop :=
  ∀ W next, V.Later W → W.Safe (m next)

namespace Yields

theorem mono {m : Eval α} (yields : V.Yields m) (later : V.Later W) : W.Yields m :=
  fun X next further => yields X next (later.trans further)

theorem run {m : Eval (List Value)} (yields : V.Yields m) : V.Safe (Eval.run m) :=
  yields V _ (.refl V) fun _ _ _ shared => .done shared

theorem pure {a : α} (shared : V.Shares a) : V.Yields (Pure.pure a) :=
  fun W _ later continues => continues W a (.refl W) (later.shares shared)

theorem bind {m : Eval α} {f : α → Eval β} (first : V.Yields m)
    (rest : ∀ W a, V.Later W → W.Shares a → W.Yields (f a)) : V.Yields (m >>= f) := by
  intro W next later continues
  refine first W _ later fun X a further shared => ?_
  refine rest X a (later.trans further) shared X next (.refl X) fun Y b last => ?_
  exact continues Y b (further.trans last)

theorem alter {f : Heap → α × Heap}
    (passes : ∀ W h, V.Later W → W.Guards h →
      W.Passes h (f h).2 ∧ (W.on (f h).2).Shares (f h).1) : V.Yields (Eval.alter f) := by
  intro W next later continues
  refine .heap (fun X h near guards => (passes X h (later.trans near.toLater) guards).1) ?_
  intro X h near guards
  obtain ⟨kept, shared⟩ := passes X h (later.trans near.toLater) guards
  exact continues _ _ (near.toLater.trans (guards.later kept)) shared

theorem modify {f : Heap → Heap} (passes : ∀ W h, V.Later W → W.Guards h → W.Passes h (f h)) :
    V.Yields (Eval.modify f) := by
  intro W next later continues
  refine .heap (fun X h near guards => passes X h (later.trans near.toLater) guards) ?_
  intro X h near guards
  exact continues _ _ (near.toLater.trans
    (guards.later (passes X h (later.trans near.toLater) guards))) trivial

omit [Disclosed α] in
/-- What is done with something that is read may depend on how it was read. -/
theorem readThen {f : Heap → α} {rest : α → Eval β}
    (continues : ∀ W h, V.Later W → W.Guards h → ∀ next,
      (∀ X b, W.Later X → X.Shares b → X.Safe (next b)) → W.Safe (rest (f h) next)) :
    V.Yields (Eval.read f >>= rest) := by
  intro W next later last
  refine .heap (fun X h _ guards => .refl guards) fun X h near guards => ?_
  rw [guards.on_self]
  exact continues X h (later.trans near.toLater) guards next fun Y b further =>
    last Y b (near.toLater.trans further)

theorem read {f : Heap → α} (shared : ∀ W h, V.Later W → W.Guards h → W.Shares (f h)) :
    V.Yields (Eval.read f) := by
  intro W next later continues
  refine .heap (fun X h _ guards => .refl guards) fun X h near guards => ?_
  rw [guards.on_self]
  exact continues X _ near.toLater (shared X h (later.trans near.toLater) guards)

theorem sites : V.Yields Eval.sites :=
  fun W _ _ continues => .sites fun sites => continues W sites (.refl W) trivial

theorem call {site : Site} {f : Value} {arguments : List Value} (function : V.Shares f)
    (shared : V.Shares arguments) : V.Yields (Eval.call site f arguments) :=
  fun _ _ later continues => .call (later.shares function) (later.shares shared) continues

theorem callBack {f : Value} {arguments : List Value} (function : V.Shares f)
    (shared : V.Shares arguments) : V.Yields (Eval.callBack f arguments) :=
  call function shared

theorem reserve (bytes : Nat) : V.Yields (Eval.reserve bytes) :=
  fun W _ _ continues => .reserve (continues W () (.refl W) trivial)

theorem ask (request : Request) (granted : V.Grants request := by trivial) :
    V.Yields (Eval.ask request) :=
  fun _ _ later continues => .ask (granted.mono later) fun X reply further =>
    continues X reply further trivial

theorem protect {body : Eval (List Value)} (yields : V.Yields body) :
    V.Yields (Eval.protect body) :=
  fun _ _ later continues => .protect (yields.mono later).run continues

theorem ends {action : Action} (safe : ∀ W, V.Later W → W.Safe action) :
    V.Yields (fun _ => action : Eval α) :=
  fun W _ later _ => safe W later

theorem running : V.Yields (fun next => .running next : Eval (Option CoroutineId)) :=
  fun W _ _ continues => .running fun coroutine? => continues W coroutine? (.refl W) trivial

theorem resume {id : CoroutineId} {arguments : List Value} (shared : V.Shares arguments) :
    V.Yields (fun next => .resume id arguments next : Eval (Except Thrown (List Value))) :=
  fun _ _ later continues => .resume (later.shares shared) continues

theorem yield {values : List Value} (shared : V.Shares values) :
    V.Yields (fun next => .yield values next : Eval (List Value)) :=
  fun _ _ later continues => .yield (later.shares shared) continues

theorem abandon (id : CoroutineId) :
    V.Yields (fun next => .abandon id next : Eval (List Value)) :=
  fun _ _ _ continues => .abandon continues

theorem iterate (start : Nat) {step : Nat → Eval (Option Nat)} (yields : ∀ i, V.Yields (step i)) :
    V.Yields (Eval.iterate start step) := by
  intro W next later continues
  refine .loop (fun v member => ?_) ?_ fun X further => continues X () further trivial
  · rw [List.mem_singleton.mp member]
    trivial
  · intro X state further _
    refine (yields _) X _ (later.trans further) fun Y again? _ _ => ?_
    cases again? with
    | none => exact .done trivial
    | some i =>
        refine .done fun v member => ?_
        rw [List.mem_singleton.mp member]
        trivial

theorem ite {c : Prop} [Decidable c] {m m' : Eval α} (first : V.Yields m)
    (second : V.Yields m') : V.Yields (if c then m else m') := by
  split
  · exact first
  · exact second

theorem stopIf {c : Prop} [Decidable c] {stop : Eval Unit} {rest : Unit → Eval α}
    (first : V.Yields stop) (second : ∀ W, V.Later W → W.Yields (rest ())) :
    V.Yields (if c then stop >>= rest else rest ()) :=
  ite (first.bind fun W _ later _ => second W later) (second V (.refl V))

end Yields

namespace Refuses

variable {m : Eval α} {f : α → Eval β}

omit [Disclosed β] in
theorem yields [Disclosed β] {m : Eval β} (refuses : V.Refuses m) : V.Yields m :=
  fun W next later _ => refuses W next later

omit [Disclosed α] [Disclosed β] in
theorem andThen (refuses : V.Refuses m) : V.Refuses (m >>= f) :=
  fun W _ later => refuses W _ later

omit [Disclosed β] in
theorem after (first : V.Yields m) (rest : ∀ W a, V.Later W → W.Shares a → W.Refuses (f a)) :
    V.Refuses (m >>= f) := by
  intro W next later
  exact first W _ later fun X a further shared =>
    rest X a (later.trans further) shared X next (.refl X)

omit [Disclosed α] in
theorem raise {thrown : Thrown} (shared : V.Shares thrown) :
    V.Refuses (Eval.raise thrown : Eval α) :=
  fun _ _ later => .raise (later.shares shared)

omit [Disclosed α] in
theorem raiseText (text : String) : V.Refuses (Eval.raiseText text : Eval α) :=
  raise (by trivial)

omit [Disclosed α] in
theorem fail (text : String) : V.Refuses (Eval.fail text : Eval α) :=
  after .sites fun _ _ _ _ => raiseText _

omit [Disclosed α] in
theorem failure (f : Failure) : V.Refuses (Eval.failure f : Eval α) := by
  have made : V.Refuses (Eval.alter (fun h => h.newUserdata (.failure f)) >>= fun id =>
      (Eval.raise (.error (.userdata id)) : Eval α)) :=
    after (.alter fun _ _ _ guards => ⟨guards.newUserdata fun _ same => (by cases same), trivial⟩)
      fun W id _ _ => raise (by trivial)
  cases f with
  | memory => exact raise (by trivial)
  | _ => exact made

end Refuses

namespace Yields

theorem raise {thrown : Thrown} (shared : V.Shares thrown) :
    V.Yields (Eval.raise thrown : Eval α) :=
  (Refuses.raise shared).yields

theorem raiseText (text : String) : V.Yields (Eval.raiseText text : Eval α) :=
  (Refuses.raiseText text).yields

theorem fail (text : String) : V.Yields (Eval.fail text : Eval α) := (Refuses.fail text).yields

theorem failure (f : Failure) : V.Yields (Eval.failure f : Eval α) := (Refuses.failure f).yields

end Yields

theorem shares_nil : V.Shares ([] : List Value) := fun _ member => absurd member List.not_mem_nil

theorem shares_cons {v : Value} {vs : List Value} (head : V.Shares v) (tail : V.Shares vs) :
    V.Shares (v :: vs) := by
  intro w member
  rcases List.mem_cons.mp member with rfl | later
  · exact head
  · exact tail w later

theorem shares_append {vs ws : List Value} (first : V.Shares vs) (second : V.Shares ws) :
    V.Shares (vs ++ ws) := by
  intro v member
  rcases List.mem_append.mp member with here | there
  · exact first v here
  · exact second v there

theorem shares_singleton {v : Value} (shared : V.Shares v) : V.Shares [v] :=
  shares_cons shared shares_nil

theorem shares_pair {v w : Value} (first : V.Shares v) (second : V.Shares w) : V.Shares [v, w] :=
  shares_cons first (shares_singleton second)

theorem shares_drop {vs : List Value} (shared : V.Shares vs) (n : Nat) : V.Shares (vs.drop n) :=
  fun v member => shared v (List.mem_of_mem_drop member)

theorem shares_firstOf {vs : List Value} (shared : V.Shares vs) : V.Shares (firstOf vs) := by
  cases vs with
  | nil => trivial
  | cons v vs => exact shared v List.mem_cons_self

theorem shares_getD {vs : List Value} (shared : V.Shares vs) (i : Nat) :
    V.Shares (vs[i]?.getD .nil) := by
  cases found : vs[i]? with
  | none => trivial
  | some v => exact shared v (List.mem_of_getElem? found)

/-- The key of a value leads nowhere but to the value. -/
theorem shares_key {v : Value} {k : Key} (shared : V.Shares v) (found : v.key? = some k) :
    V.Shares k.value := by
  cases v with
  | float x =>
      simp only [Value.key?] at found
      split at found
      · obtain rfl := Option.some.inj found
        trivial
      · split at found
        · cases found
        · obtain rfl := Option.some.inj found
          trivial
  | nil => cases found
  | _ =>
      obtain rfl := Option.some.inj found
      exact shared

end Vault

end ScriptHost.Lua
