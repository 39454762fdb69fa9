import TracedScript.Proofs.Files.ScriptNames
import TracedScript.Proofs.Run.Obedience

/-!
# What built-in names mean

Declarations and assignments refuse built-in names, but a call binds parameters and options without
a look at what they are called. So it takes code without such parameters and options for a built-in
name to mean the same everywhere. Main statement: `built_in_names_mean_built_ins`, and
`parameter_hides_built_in` for the other case. The scopes that are opened by a run are followed:
from each of them the built-in names are found on the way up, and nothing before them.
-/

namespace TracedScript

/-- The name is one of the language itself. -/
def Machine.IsBuiltIn (name : String) : Prop := name ∈ Machine.prelude.map (·.1)

instance (name : String) : Decidable (Machine.IsBuiltIn name) :=
  inferInstanceAs (Decidable (name ∈ Machine.prelude.map (·.1)))

/-- The names that a call of the function binds. -/
def FunctionLiteral.names (literal : FunctionLiteral) : List String :=
  literal.params.map (·.name) ++ literal.options.map (·.name)

/-- The node is no function with a built-in name for a parameter or an option. -/
def NodeKind.SparesBuiltIns : NodeKind → Prop
  | .function literal => ∀ name ∈ literal.names, ¬ Machine.IsBuiltIn name
  | _ => True

def Node.SparesBuiltIns (n : Node) : Prop := n.All NodeKind.SparesBuiltIns

/-! ## Finding names -/

theorem Bindings.get?_of_mem {bs : Bindings} (hd : (bs.map (·.1)).Nodup) {b : String × Value}
    (hb : b ∈ bs) : bs.get? b.1 = some b.2 := by
  induction bs with
  | nil => cases hb
  | cons c cs ih =>
    obtain ⟨hc, hcs⟩ := List.nodup_cons.mp hd
    obtain rfl | hb := List.mem_cons.mp hb
    · rw [get?, if_pos rfl]
    · have other : c.1 ≠ b.1 := fun h => hc (List.mem_map.mpr ⟨b, hb, h.symm⟩)
      rw [get?, if_neg other]
      exact ih hcs hb

theorem Bindings.get?_of_not_mem {bs : Bindings} {name : String} (h : ∀ b ∈ bs, b.1 ≠ name) :
    bs.get? name = none := by
  induction bs with
  | nil => rfl
  | cons b bs ih =>
    obtain ⟨hb, hbs⟩ := List.forall_mem_cons.mp h
    rw [get?, if_neg hb]
    exact ih hbs

namespace Store

theorem chain_opened {s : Store} {parent : ScopeId} (h : parent < s.next) (bs : Bindings) :
    ((s.add (some parent)).defineAll s.next bs).chain s.next = s.next :: s.chain parent := by
  have up : ((s.add (some parent)).defineAll s.next bs).parent? s.next = some parent := by
    rw [parent?_defineAll, parent?_add, if_pos rfl]
  rw [chain, up]
  simp only [h, ↓reduceDIte, (Grows.opened s (some parent) bs).chain h]

/-- A name is found where it is bound on the way up, if it is bound nowhere before. -/
theorem get?_of_chain {s : Store} {id found : ScopeId} {name : String} {v : Value}
    (hm : found ∈ s.chain id) (hv : s.local? found name = some v)
    (hn : ∀ j ∈ s.chain id, j ≠ found → s.local? j name = none) : s.get? id name = some v := by
  unfold get?
  generalize s.chain id = scopes at hm hn
  induction scopes with
  | nil => cases hm
  | cons j js ih =>
    obtain ⟨hj, hjs⟩ := List.forall_mem_cons.mp hn
    rw [List.findSome?_cons]
    by_cases heq : j = found
    · rw [heq, hv]
    · rw [hj heq]
      exact ih ((List.mem_cons.mp hm).resolve_left (Ne.symm heq)) hjs

/-- A scope that was opened since there were `base` scopes, with the built-in names around it, and
with others around it only that were opened since, too. -/
structure Sheltered (base : ScopeId) (s : Store) (id : ScopeId) : Prop where
  made : id < s.next
  recent : base ≤ id
  ne : Machine.preludeScope ≠ id
  inside : Machine.preludeScope ∈ s.chain id
  chain : ∀ j ∈ s.chain id, j = Machine.preludeScope ∨ base ≤ j

/-- The scopes of the first store are as they were, and none that has been opened since binds a
built-in name. -/
structure Spared (s₀ s : Store) : Prop where
  next : s₀.next ≤ s.next
  older : ∀ id < s₀.next, s.bindings id = s₀.bindings id
  newer : ∀ id, s₀.next ≤ id → ∀ b ∈ s.bindings id, ¬ Machine.IsBuiltIn b.1

theorem Sheltered.grows {base : ScopeId} {s t : Store} {id : ScopeId} (h : Sheltered base s id)
    (hst : s.Grows t) : Sheltered base t id := by
  have same := hst.chain h.made
  exact ⟨Nat.lt_of_lt_of_le h.made hst.next, h.recent, h.ne, same ▸ h.inside, same ▸ h.chain⟩

namespace Spared

variable {s₀ s : Store}

/-- From a sheltered scope a built-in name gives what it stands for. -/
theorem get? (h : s₀.Spared s) (hp : s.KeepsPrelude) {id : ScopeId}
    (hid : Sheltered s₀.next s id) {b : String × Value} (hb : b ∈ Machine.prelude) :
    s.get? id b.1 = some b.2 := by
  refine get?_of_chain hid.inside ?_ fun j hj hne => ?_
  · rw [local?, hp.bindings]
    exact Bindings.get?_of_mem (by decide) hb
  · have recent := (hid.chain j hj).resolve_left hne
    refine Bindings.get?_of_not_mem fun c hc heq => h.newer j recent c hc ?_
    rw [heq]
    exact List.mem_map_of_mem hb

/-- What is not refused as reserved is no built-in name. -/
theorem not_builtIn (h : s₀.Spared s) (hp : s.KeepsPrelude) {id : ScopeId}
    (hid : Sheltered s₀.next s id) {name : String}
    (hr : ∀ current, s.get? id name = some current → current.isReserved = false) :
    ¬ Machine.IsBuiltIn name := by
  intro hname
  obtain ⟨b, hb, rfl⟩ := List.mem_map.mp hname
  have free := hr b.2 (h.get? hp hid hb)
  rw [Machine.isReserved_of_mem_prelude b hb] at free
  cases free

theorem define (h : s₀.Spared s) {id : ScopeId} (hid : s₀.next ≤ id) {name : String} (v : Value)
    (hname : ¬ Machine.IsBuiltIn name) : s₀.Spared (s.define id name v) := by
  refine ⟨(next_define s id name v).symm ▸ h.next, fun j hj => ?_, fun j hj => ?_⟩
  · rw [bindings_define_of_ne s (Nat.ne_of_lt (Nat.lt_of_lt_of_le hj hid))]
    exact h.older j hj
  · exact forall_bindings_define (p := fun b => ¬ Machine.IsBuiltIn b.1) (h.newer j hj) hname

theorem opened (h : s₀.Spared s) (parent : Option ScopeId) {bs : Bindings}
    (hb : ∀ b ∈ bs, ¬ Machine.IsBuiltIn b.1) :
    s₀.Spared ((s.add parent).defineAll s.next bs) := by
  refine ⟨?_, fun j hj => ?_, fun j hj => ?_⟩
  · rw [next_defineAll, next_add]
    exact Nat.le_succ_of_le h.next
  · rw [bindings_defineAll_of_ne _ (Nat.ne_of_lt (Nat.lt_of_lt_of_le hj h.next)), bindings_add]
    exact h.older j hj
  · refine forall_bindings_defineAll (p := fun b => ¬ Machine.IsBuiltIn b.1) ?_ hb
    rw [bindings_add]
    exact h.newer j hj

/-- A scope opened inside a sheltered one, or inside the scope of the built-in names, is sheltered
as well. -/
theorem sheltered (h : s₀.Spared s) (hp : s.KeepsPrelude) {parent : ScopeId}
    (hparent : parent = Machine.preludeScope ∨ Sheltered s₀.next s parent) (bs : Bindings) :
    Sheltered s₀.next ((s.add (some parent)).defineAll s.next bs) s.next := by
  obtain ⟨ne, room⟩ := hp.opened_ne (some parent) bs
  have around : parent < s.next ∧ Machine.preludeScope ∈ s.chain parent ∧
      ∀ j ∈ s.chain parent, j = Machine.preludeScope ∨ s₀.next ≤ j := by
    obtain rfl | hparent := hparent
    · have alone : s.chain Machine.preludeScope = [Machine.preludeScope] := by
        rw [chain, hp.parent]
      rw [alone]
      exact ⟨hp.next, List.mem_singleton_self _, List.forall_mem_singleton.mpr (.inl rfl)⟩
    · exact ⟨hparent.made, hparent.inside, hparent.chain⟩
  obtain ⟨made, inside, outer⟩ := around
  have up := chain_opened made bs
  refine ⟨room, h.next, ne, ?_, ?_⟩
  · rw [up]
    exact List.mem_cons_of_mem _ inside
  · rw [up]
    exact List.forall_mem_cons.mpr ⟨.inr h.next, outer⟩

end Spared

end Store

/-! ## What calls bind -/

namespace Function

/-- The names that a call of the function binds. -/
def names (f : Function) : List String := f.params.map (·.name) ++ f.options.map (·.name)

theorem name_of_bindParameters {function : String} {params : List Parameter} {args : List Value}
    {bs : Bindings} (h : bindParameters function params args = .ok bs) :
    ∀ b ∈ bs, b.1 ∈ params.map (·.name) := by
  induction params generalizing args bs with
  | nil =>
    cases h
    exact List.forall_mem_nil _
  | cons p ps ih =>
    cases args with
    | nil =>
      cases h
      exact List.forall_mem_nil _
    | cons v vs =>
      have rest (h : (bindParameters function ps vs).map ((p.name, v.named p.name) :: ·) = .ok bs) :
          ∀ b ∈ bs, b.1 ∈ (p :: ps).map (·.name) := by
        obtain ⟨cs, hc, rfl⟩ := exists_of_map_ok h
        refine List.forall_mem_cons.mpr ⟨List.mem_cons_self .., fun b hb => ?_⟩
        exact List.mem_cons_of_mem _ (ih hc b hb)
      unfold bindParameters at h
      split at h
      · split at h
        · exact rest h
        · cases h
      · exact rest h

theorem name_of_bindOptions {f : Function} {function : String} {named : List NamedValue}
    {bs : Bindings} (h : bindOptions f function named = .ok bs) :
    ∀ b ∈ bs, b.1 ∈ f.options.map (·.name) := by
  induction named generalizing bs with
  | nil =>
    cases h
    exact List.forall_mem_nil _
  | cons a rest ih =>
    unfold bindOptions at h
    split at h
    · rename_i hknown
      obtain ⟨cs, hc, rfl⟩ := exists_of_map_ok h
      refine List.forall_mem_cons.mpr ⟨?_, ih hc⟩
      obtain ⟨o, ho, hname⟩ := List.any_eq_true.mp hknown
      exact List.mem_map.mpr ⟨o, ho, of_decide_eq_true hname⟩
    · cases h

/-- A call binds no names but those of parameters and options. -/
theorem name_of_bind {f : Function} {function : String} {args : Arguments} {bs : Bindings}
    (h : f.bind function args = .ok bs) : ∀ b ∈ bs, b.1 ∈ f.names := by
  unfold Function.bind at h
  split at h
  · cases h
  · obtain ⟨params, hparams, h⟩ := exists_of_bind_ok h
    obtain ⟨options, hoptions, h⟩ := exists_of_bind_ok h
    cases h
    intro b hb
    obtain hb | hb := List.mem_append.mp hb
    · obtain hb | hb := List.mem_append.mp hb
      · exact List.mem_append_left _ (name_of_bindParameters hparams b hb)
      · obtain ⟨o, ho, rfl⟩ := List.mem_map.mp hb
        exact List.mem_append_right _ (List.mem_map_of_mem ho)
    · exact List.mem_append_right _ (name_of_bindOptions hoptions b hb)

end Function

/-- Modules of the language bind no names that are built in. -/
theorem Module.not_builtIn_of_native {directories : List String} {name : String} {bs : Bindings}
    (h : native? directories name = some bs) : ∀ b ∈ bs, ¬ Machine.IsBuiltIn b.1 := by
  have names : ∀ x ∈ math.map (·.1) ++ ["version", "path"], ¬ Machine.IsBuiltIn x := by decide
  intro b hb
  unfold native? at h
  split at h
  · cases h
    exact names b.1 (List.mem_append_left _ (List.mem_map_of_mem hb))
  · split at h
    · cases h
      exact names b.1 (List.mem_append_right _ (List.mem_map_of_mem hb))
    · cases h

/-! ## The discipline -/

/-- A function of code that spares the built-in names, as are its own names, made in a sheltered
scope; or the namespace of a scope that can be reached. -/
def Data.Sparing (base : ScopeId) (s : Store) : Data → Prop
  | .func f => (∀ c ∈ f.body, c.SparesBuiltIns) ∧ s.Sheltered base f.closure ∧
      ∀ name ∈ f.names, ¬ Machine.IsBuiltIn name
  | .namespace _ id => id = Machine.preludeScope ∨ base ≤ id
  | _ => True

namespace Discipline

/-- Allows code that spares the built-in names, in scopes that are sheltered since `s₀`. -/
def sparing (s₀ : Store) : Discipline where
  code n := n.SparesBuiltIns
  scope id := id = Machine.preludeScope ∨ s₀.next ≤ id
  frame s id := s.Sheltered s₀.next id
  allows s v := v.data.Sparing s₀.next s
  store s := s₀.Spared s
  code_child h hc := h.child hc
  scope_prelude := .inl rfl
  scope_frame h := .inr h.recent
  frame_ne h := h.ne
  frame_grows hst h := h.grows hst
  modest s := ⟨fun hv hd _ _ => hd ▸ hv, fun {d} hd _ => by cases d <;> trivial⟩
  allows_grows {s t v} hst h := by
    cases hd : v.data with
    | func f =>
      rw [hd] at h
      exact ⟨h.1, h.2.1.grows hst, h.2.2⟩
    | _ =>
      rw [hd] at h
      exact h
  allows_namespace h := .inr h.recent
  scope_namespace {s v name id} h hd := by
    rw [hd] at h
    exact h
  allows_function {s n literal f} hn hk hparams hoptions hbody hs := by
    refine ⟨fun c hc => hn.child ?_, hs, ?_⟩
    · rw [Node.children, hk]
      exact List.mem_append_right _ (hbody ▸ hc)
    · have spares := hn.self
      rw [hk] at spares
      rw [Function.names, hparams, hoptions]
      exact spares
  body {s v f} h hd := by
    rw [hd] at h
    exact ⟨h.1, .inr h.2.1.recent⟩
  store_top h hp := ⟨h.opened _ (List.forall_mem_nil _), h.sheltered hp (.inl rfl) []⟩
  store_call {s v f function args bs} h hp hv hd hb _ := by
    rw [hd] at hv
    obtain ⟨-, hclosure, hnames⟩ := hv
    exact ⟨h.opened _ fun b hm => hnames b.1 (Function.name_of_bind hb b hm),
      h.sheltered hp (.inr hclosure) bs⟩
  store_native h hb := ⟨h.opened none (Module.not_builtIn_of_native hb), .inr h.next⟩
  store_assign {s id owner name current v span} h hp hs ho hc hr _ := by
    have recent := (hs.chain owner (Store.owner_mem_chain ho)).resolve_left
      (Ne.symm (hp.ne_owner ho hc hr))
    refine h.define recent _ (h.not_builtIn hp hs fun other hother => ?_)
    cases hc.symm.trans hother
    exact Eval.unreserved_of_not_refused hr
  store_declare {s id name v} h hp hs hr _ := by
    refine h.define hs.recent _ (h.not_builtIn hp hs fun current hc => ?_)
    rw [hc] at hr
    exact hr

variable {m : Machine} {around : Surroundings} {n : Nat} {name text : String}

/-- Of the scopes of a run there is none yet before it. -/
theorem sparing_start (h : m.store.KeepsPrelude) : (sparing m.store).Sound m.store := by
  refine ⟨h, fun id hid b hb => ?_, fun id p hid hp => ?_, Nat.le_refl _, fun _ _ => rfl,
    fun id hid => ?_⟩
  · obtain rfl | hid := hid
    · rw [h.bindings] at hb
      exact Machine.modest_relocate_prelude ((sparing m.store).modest m.store) hb
    · rw [Store.bindings_of_next_le m.store hid] at hb
      cases hb
  · obtain rfl | hid := hid
    · rw [h.parent] at hp
      cases hp
    · rw [Store.parent?_of_next_le m.store hid] at hp
      cases hp
  · rw [Store.bindings_of_next_le m.store hid]
    exact List.forall_mem_nil _

end Discipline

/-! ## Programs that spare the built-in names -/

/-- The statements of the text spare the built-in names, if it can be read. -/
def Source.SparesBuiltIns (s : Source) : Prop :=
  ∀ statements, s.program = .ok statements → ∀ c ∈ statements, c.SparesBuiltIns

/-- So do those of all scripts that can be read. -/
def Surroundings.SpareBuiltIns (around : Surroundings) : Prop :=
  ∀ path text, around.files.read path = .ok text →
    (Source.mk path (Text.normalize text)).SparesBuiltIns

/-- No scope but that of the built-in names binds a built-in name that it did not bind before. -/
def Store.GainsNoBuiltIn (s₀ s : Store) : Prop :=
  ∀ id, Machine.preludeScope ≠ id → ∀ b ∈ Machine.prelude, s₀.local? id b.1 = none →
    s.local? id b.1 = none

theorem Store.Spared.gainsNoBuiltIn {s₀ s : Store} (h : s₀.Spared s) : s₀.GainsNoBuiltIn s := by
  intro id _ b hb hnone
  by_cases hid : id < s₀.next
  · rw [local?, h.older id hid]
    exact hnone
  · refine Bindings.get?_of_not_mem fun c hc heq => ?_
    refine h.newer id (Nat.le_of_not_lt hid) c hc ?_
    rw [heq]
    exact List.mem_map_of_mem hb

/-- Let neither a program nor the scripts that can be read have a function with a parameter or an
option named like a built-in. Then in every visit of a run of the program, before and after, the
built-in names stand for the built-ins in the scopes of all frames, and no scope gets to bind a
built-in name, not even by the end of the run. -/
theorem built_in_names_mean_built_ins {m : Machine} (hm : m.Reached) (around : Surroundings)
    (n : Nat) (name text : String) (hp : (Source.mk name (Text.normalize text)).SparesBuiltIns)
    (hs : around.SpareBuiltIns) :
    (∀ u, m.Visits around n name text u →
      (∀ f ∈ u.stack.frames, ∀ b ∈ Machine.prelude,
        u.machine.store.get? f.scope b.1 = some b.2 ∧
        (u.ending around).2.store.get? f.scope b.1 = some b.2) ∧
      m.store.GainsNoBuiltIn u.machine.store ∧
      m.store.GainsNoBuiltIn (u.ending around).2.store) ∧
    m.store.GainsNoBuiltIn (m.run around n name text).2.store := by
  have start := Discipline.sparing_start hm.prelude
  have covers : (Discipline.sparing m.store).Covers around := by
    intro asked path text statements hf
    exact hs path text (Module.read_of_findScript hf).1 statements
  refine ⟨fun u hu => ?_, ?_⟩
  · have meets := hu.meets covers start hp
    have outcome := meets.ending covers
    refine ⟨fun f hf b hb => ⟨?_, ?_⟩, meets.sound.store.gainsNoBuiltIn,
      outcome.sound.store.gainsNoBuiltIn⟩
    · exact meets.sound.store.get? meets.sound.prelude (meets.standing f hf) hb
    · exact outcome.sound.store.get? outcome.sound.prelude
        ((meets.standing f hf).grows outcome.grows) hb
  · have after := Discipline.after_run start covers n hp
    exact after.sound.store.gainsNoBuiltIn

/-- Calls a function with a parameter named `True`, which returns that parameter. -/
def hidingProgram : String := "var f = func(True) \x7b\nreturn(True)\n\x7d\nf(1)"

/-- The call leaves a scope in which `True` is a number. -/
theorem parameter_hides_built_in :
    let after := Machine.initial.run ⟨.standard, .empty [], none⟩ 9 "main.peri" hidingProgram
    (after.2.store.local? 2 "True").map Value.kind = some .int ∧
      ¬ Machine.initial.store.GainsNoBuiltIn after.2.store := by
  intro after
  have hidden : (after.2.store.local? 2 "True").map Value.kind = some .int := by decide +kernel
  refine ⟨hidden, fun h => ?_⟩
  have none_before : (Machine.initial.store.local? 2 "True").isNone = true := by decide +kernel
  have none_after := h 2 (by decide) (Machine.reserved "True" (.bool true))
    (by simp [Machine.prelude]) (Option.isNone_iff_eq_none.mp none_before)
  have name : (Machine.reserved "True" (.bool true)).1 = "True" := rfl
  rw [name] at none_after
  rw [none_after] at hidden
  cases hidden

def NodeKind.sparesBuiltIns : NodeKind → Bool
  | .function literal => literal.names.all fun name => decide (¬ Machine.IsBuiltIn name)
  | _ => true

/-- Checks the functions of a text, if it can be read, up to a depth of `k`. -/
def Source.sparesBuiltIns (s : Source) (k : Nat) : Bool :=
  match s.program with
  | .error _ => true
  | .ok statements => statements.all (Node.allTo NodeKind.sparesBuiltIns k)

theorem Source.spares_of_sparesBuiltIns {s : Source} {k : Nat} (h : s.sparesBuiltIns k = true) :
    s.SparesBuiltIns := by
  intro statements hp c hc d hd
  unfold Source.sparesBuiltIns at h
  rw [hp] at h
  have checked := Node.all_of_allTo (List.all_eq_true.mp h c hc) d hd
  cases hk : d.kind with
  | function literal =>
    rw [hk] at checked
    intro name hname
    exact of_decide_eq_true (List.all_eq_true.mp checked name hname)
  | _ => trivial

/-- With another name for the parameter `True` goes on being the built-in. -/
theorem sparing_program_keeps_true :
    let text := "var f = func(x) \x7b\nreturn(x)\n\x7d\nf(True)"
    ∃ u, Machine.initial.Visits ⟨.standard, .empty [], none⟩ 9 "main.peri" text u ∧
      u.machine.store.get? u.stack.top.scope "True" =
        some (Machine.reserved "True" (.bool true)).2 ∧
      Machine.initial.store.GainsNoBuiltIn
        (Machine.initial.run ⟨.standard, .empty [], none⟩ 9 "main.peri" text).2.store := by
  intro text
  have spares : (Source.mk "main.peri" (Text.normalize text)).sparesBuiltIns 9 = true := by
    decide +kernel
  have scripts : Surroundings.SpareBuiltIns ⟨.standard, .empty [], none⟩ := by
    intro path script hr
    obtain ⟨e, he, -⟩ := FileTree.exists_entry_of_read hr
    cases he
  have readable : (Source.mk "main.peri" (Text.normalize text)).hasStatements = true := by
    decide +kernel
  obtain ⟨c, rest, hp⟩ := exists_of_hasStatements readable
  have visits := Machine.initial.visits_first ⟨.standard, .empty [], none⟩ 9 hp
  obtain ⟨all, after⟩ := built_in_names_mean_built_ins .initial ⟨.standard, .empty [], none⟩ 9
    "main.peri" text (Source.spares_of_sparesBuiltIns spares) scripts
  obtain ⟨names, -⟩ := all _ visits
  have found := names _ (List.mem_cons_self ..) (Machine.reserved "True" (.bool true))
    (by simp [Machine.prelude])
  exact ⟨_, visits, found.1, after⟩

end TracedScript
