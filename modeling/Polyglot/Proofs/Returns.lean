import Polyglot.Proofs.Results

/-!
# Return statements and the results of functions

The pass over types comes upon every return statement, those below a node in a fixed order. Each tells the type of its
value to all functions around it, as far as one is known by then. What is known by then is what the pass leaves behind
if it ends at the statement.
-/
namespace Polyglot

open Session Effect List TypeStyle Node

attribute [local simp] Node.children Shape.children

variable {value : Option Node} {s : Session}

/-- A return statement as the pass comes upon it, with the scopes around it and the name of the type of its value. -/
structure Return where
  stmt : NodeId
  chain : List NodeId
  type : Option String

def Return.tells (r : Return) : List (NodeId × String) := r.type.elim [] fun new => r.chain.map (·, new)

def Session.returnedType (s : Session) (id : NodeId) : Option String :=
  match (s.content id).shape with
  | .ret (some v) => (s.mention v).join.bind Node.ident?
  | _ => none

theorem Session.mention_congr {m n : Node} (hid : m.id = n.id) (h : (s.nodes[n.id]?).isSome) : s.mention m = s.mention n := by
  obtain ⟨c, hc⟩ := Option.isSome_iff_exists.1 h
  unfold mention
  rw [now_of_getElem? (hid ▸ hc), now_of_getElem? hc, hid]

/-- The type of what is returned is that of a node with the identity of the value. -/
theorem Session.returnedType_of_outline {A : NodeId → Prop} {n : Node} (hs : SoundFor A s) (hA : A n.id)
    (houtline : (s.content n.id).outline = n.outline) (hshape : n.shape = .ret value) :
    s.returnedType n.id = value.bind fun v => (s.mention v).join.bind ident? := by
  have hreturn : (s.content n.id).isReturn := by rw [isReturn_of_outline houtline, isReturn, hshape]
  have hshapes := shape_of_outline houtline
  have hparts := hs.parts n.id hA
  unfold isReturn at hreturn
  unfold returnedType
  split at hreturn
  · rename_i value' hvalue'
    rw [hvalue', hshape] at hshapes
    rw [children, hvalue'] at hparts
    rw [hvalue']
    cases value' with
    | none =>
      cases value with
      | none => rfl
      | some v => cases hshapes
    | some v' =>
      cases value with
      | none => cases hshapes
      | some v =>
        have hid : v'.id = v.id := by
          injection hshapes with hvalues
          injection hvalues with hstubs
          injection hstubs
        obtain ⟨_, m, hm⟩ := hs.there (hparts v' (mem_singleton_self _))
        exact congrArg (·.join.bind ident?) (mention_congr hid.symm (by rw [hm]; rfl)).symm
  · cases hreturn

/-- The pass ends at a return statement, once it went through what is returned. -/
def Inference.stoppedAt (stmt : NodeId) : Rules :=
  { rules with ret := fun self n => do
      Pass.below self n
      if n.id = stmt then fail .missingPart else tellResult n }

/-- How a computation that ends at a return statement comes out, if it comes upon some statements otherwise: at the first
one of that identity it ends, and then the type of the value is known. -/
def Return.Stops {α : Type} (rs : List Return) (stmt : NodeId) (whole stopped : EStateM.Result Fault Session α) : Prop :=
  match rs.find? (·.stmt == stmt) with
  | none => stopped = whole
  | some r => ∃ e t, stopped = .error e t ∧ r.type = t.returnedType stmt

/-- From a session on, a computation comes upon some return statements, and only what they tell is told. With it goes
the computation that ends at a return statement. -/
def Reports {α : Type} (A : NodeId → Prop) (s0 : Session) (x : Analysis α) (y : NodeId → Analysis α) (stmts : List NodeId) :
    Prop :=
  ∀ s js a s', Follows A s0 js s → x s = .ok a s' →
    ∃ rs : List Return, Follows A s (rs.flatMap Return.tells) s' ∧ rs.map (·.stmt) = stmts ∧
      (∀ r ∈ rs, r.chain = (s0.scopesOf r.stmt).getD []) ∧ ∀ stmt, Return.Stops rs stmt (.ok a s') (y stmt s)

namespace Reports

variable {α β : Type} {A : NodeId → Prop} {s0 : Session} {x : Analysis α} {y : NodeId → Analysis α} {f : α → Analysis β}
  {g : NodeId → α → Analysis β} {l l' : List NodeId}

theorem calm (hx : Calm x) : Reports A s0 x (fun _ => x) [] := by
  intro s js a s' hs h
  exact ⟨[], .of_steady hs.sound (hx s a s' h hs.sound.keyed), rfl, nofun, fun _ => h⟩

theorem bind (hx : Reports A s0 x y l) (hf : ∀ a, Reports A s0 (f a) (fun stmt => g stmt a) l') :
    Reports A s0 (x >>= f) (fun stmt => y stmt >>= g stmt) (l ++ l') := by
  intro s js b s' hs h
  obtain ⟨a, t, hxs, hft⟩ := bind_eq_ok.1 h
  obtain ⟨rs, hst, rfl, hrs, hstops⟩ := hx s js a t hs hxs
  obtain ⟨rs', hts, rfl, hrs', hstops'⟩ := hf a t _ b s' (hs.trans hst) hft
  refine ⟨rs ++ rs', ?_, map_append, forall_mem_append.2 ⟨hrs, hrs'⟩, fun stmt => ?_⟩
  · rw [flatMap_append]
    exact hst.trans hts
  · have hx := hstops stmt
    have hf := hstops' stmt
    unfold Return.Stops at hx hf ⊢
    rw [find?_append]
    cases hfind : rs.find? (·.stmt == stmt) with
    | none =>
      rw [hfind] at hx
      have hrun : (y stmt >>= g stmt) s = g stmt a t := bind_ok hx
      dsimp only
      rwa [hrun]
    | some r =>
      rw [hfind] at hx
      obtain ⟨e, u, hstopped, htype⟩ := hx
      exact ⟨e, u, bind_error hstopped, htype⟩

theorem bind_bind {γ : Type} {w : Analysis γ} {x : γ → Analysis α} {y : NodeId → γ → Analysis α}
    (hx : Reports A s0 (w >>= x) (fun stmt => w >>= y stmt) l) (hf : ∀ a, Reports A s0 (f a) (fun stmt => g stmt a) l') :
    Reports A s0 (w >>= fun c => x c >>= f) (fun stmt => w >>= fun c => y stmt c >>= g stmt) (l ++ l') := by
  simpa only [bind_assoc] using hx.bind hf

/-- What is done beside the way tells nothing. -/
theorem before_calm (hx : Reports A s0 x y l) (hf : ∀ a, Calm (f a)) :
    Reports A s0 (x >>= f) (fun stmt => y stmt >>= f) l := by
  have h := hx.bind fun a => calm (hf a)
  rwa [append_nil] at h

theorem after_calm (hx : Calm x) (hf : ∀ a, Reports A s0 (f a) (fun stmt => g stmt a) l) :
    Reports A s0 (x >>= f) (fun stmt => x >>= g stmt) l :=
  (calm hx).bind hf

theorem forM {f : α → Analysis Unit} {g : NodeId → α → Analysis Unit} {h : α → List NodeId} {as : List α}
    (hf : ∀ a ∈ as, Reports A s0 (f a) (fun stmt => g stmt a) (h a)) :
    Reports A s0 (as.forM f) (fun stmt => as.forM (g stmt)) (as.flatMap h) := by
  induction as with
  | nil => exact calm (.pure ())
  | cons a as ih =>
    obtain ⟨ha, has⟩ := forall_mem_cons.1 hf
    exact ha.bind fun _ => ih has

end Reports

namespace Inference

/-! ### What is done beside the way -/

theorem calm_setFixedWidth (b : Bool) : Calm (modify fun s => { s with fixedWidth := b } : Analysis Unit) := by
  intro s a s' h
  cases h
  exact fun _ => ⟨le_rfl, fun hs => hs, fun _ m _ h => ⟨m, h, rfl⟩, fun _ => .refl _, rfl⟩

theorem calm_listType (n : Node) (elts : List Node) :
    Calm (do
      if !(← factsOf n.id).inHint then
        let types ← elts.filterMapM fun e => do (← typeOf e).mapM writeType
        match types.eraseDups with
        | [] => annotate n (← typeName "List")
        | [t] => annotateWith n ("List[" ++ t ++ "]")
        | ts => annotateWith n ("List[Union[" ++ Text.commas ts ++ "]]")) := by
  refine (calm_factsOf _).bind fun f => of_ite ?_ (.pure _)
  refine (Along.filterMapM fun e => (calm_typeOf e).bind fun t => .optionMapM fun t _ => calm_writeType t).bind fun types => ?_
  split
  · exact calm_named n _
  · exact calm_annotateWith n _
  · exact calm_annotateWith n _

theorem calm_setType (n : Node) (elts : List Node) :
    Calm (do
      let types ← elts.mapM typeNameOf
      let only ← match elts, types with
        | e :: _, t :: ts => if ts.all (· == t) then hint? e else pure none
        | _, _ => pure none
      match only with
      | some t => annotateWith n ("Set[" ++ (t.bind ident?).getD "None" ++ "]")
      | none => if !(← hasHint n) then annotate n (← typeName "Set")) := by
  have hset (only : Option (Option Node)) : Calm (match only with
      | some t => annotateWith n ("Set[" ++ (t.bind ident?).getD "None" ++ "]")
      | none => do if !(← hasHint n) then annotate n (← typeName "Set")) := by
    split
    · exact calm_annotateWith n _
    · exact (calm_hasHint n).bind fun _ => of_ite (calm_named n _) (.pure _)
  refine (Along.mapM fun e _ => (calm_typeOf e).bind fun _ => .pure _).bind fun types => ?_
  split
  · exact of_ite ((calm_hint? _).bind hset) (.bind (.pure _) hset)
  · exact .bind (.pure _) hset

theorem calm_entryTerm (e : Option Node) : Calm (entryTerm e) := by
  unfold entryTerm
  split
  · exact .pure _
  · exact (calm_typeOf _).bind fun _ => calm_genericHint _ _

theorem calm_sharedName (ts : List TypeTerm) : Calm (sharedName ts) := by
  have hkey (t : TypeTerm) : Calm (termKey t) := by
    unfold termKey
    split
    · exact .throw
    · exact .pure _
  refine (Along.mapM fun t _ => hkey t).bind fun names => ?_
  split
  · exact .pure _
  · exact .throw

theorem calm_dictType (keys : List (Option Node)) (values : List Node) : Calm (dictType keys values) := by
  refine (Along.mapM fun e _ => calm_entryTerm e).bind fun ts => (calm_sharedName ts).bind fun k => ?_
  exact (Along.mapM fun e _ => calm_entryTerm (some e)).bind fun ts => (calm_sharedName ts).bind fun v => .pure _

theorem calm_callType (n : Node) : Calm (callType n) := by
  unfold callType
  split
  · refine (calm_current _).bind fun func => ?_
    split
    · exact .pure _
    · refine (calm_chainOf n).bind fun chain => (calm_find _ _).bind fun d => ?_
      split
      · exact calm_annotateWith n _
      · exact .optionForM fun r _ => (calm_current r).bind fun c => calm_annotate n c
      · refine of_ite ?_ (of_ite ((calm_typeName _).bind fun t => calm_annotate n t) (.pure _))
        split
        · exact calm_fail
        · exact (calm_typeOf _).bind fun t => .optionForM fun t _ => calm_annotate n t
  · exact .pure _

theorem calm_elementType (container element : TypeTerm) : Calm (elementType container element) := by
  unfold elementType
  split
  · split
    · exact .pure _
    · exact calm_fail
  · refine of_ite ?_ (.pure _)
    split
    · exact .pure _
    · exact calm_fail
  · exact of_ite calm_fail (.pure _)

theorem calm_subscriptType (n index d : Node) : Calm (subscriptType n index d) := by
  refine (calm_hasHint d).bind fun _ => of_ite ((calm_ofHint d).bind fun _ => (calm_factsOf _).bind fun f => ?_) (.pure _)
  split
  · exact .pure _
  · refine (calm_elementType _ _).bind fun element => (calm_hintOf d).bind fun outer => (calm_current index).bind fun c => ?_
    have hrest : Calm (do (← lifetimeOf outer).forM fun l => do (← hintOf n).forM fun t => setLifetime t l) :=
      (calm_lifetimeOf outer).bind fun _ => .optionForM fun l _ => (calm_hintOf n).bind fun _ =>
        .optionForM fun t _ => calm_setLifetime t l
    exact of_ite (.bind (calm_note fun _ => ⟨rfl, fun _ => rfl⟩) fun _ => hrest)
      ((calm_typeName _).bind fun t => (calm_annotate n t).bind fun _ => hrest)

theorem calm_targetType (l : Loop Node) : Calm (targetType l) := by
  refine (calm_hintOf l.iter).bind fun t => ?_
  split
  · refine (calm_current _).bind fun i => (calm_parameterOf _ i).bind fun type => ?_
    refine (calm_current l.target).bind fun target => ?_
    split
    · exact calm_annotate _ _
    · split
      · refine (calm_current _).bind fun i => (calm_parameterOf _ i).bind fun inner => ?_
        exact .forM fun e _ => calm_annotate e inner
      · exact .pure _
    · exact .pure _
  · exact .pure _

/-! ### The pass -/

variable {A : NodeId → Prop} {s : Session} {n : Node} {self : Node → Analysis Unit}
  {self' : NodeId → Node → Analysis Unit}
  {below : NodeId → List NodeId} {l : List NodeId}

/-- What it means that a return statement tells the functions around it of a type. -/
theorem tellResult_follows {t t' : Session} (hs : SoundFor A t) (hA : A n.id) (hshape : n.shape = .ret value)
    (h : tellResult n t = .ok () t') :
    Follows A t (Return.tells ⟨n.id, (t.scopesOf n.id).getD [], value.bind fun v => (t.mention v).join.bind ident?⟩) t' := by
  unfold tellResult at h
  rw [hshape] at h
  cases value with
  | none =>
    cases h
    exact .refl hs
  | some v =>
    obtain ⟨ann, _, hann, h⟩ := bind_eq_ok.1 h
    obtain ⟨rfl, rfl⟩ := EStateM.Result.ok.inj ((hintOf_ok t v).symm.trans hann)
    rw [Option.bind_some]
    cases hmention : (t.mention v).join with
    | none =>
      rw [hmention] at h
      cases h
      exact .refl hs
    | some ann =>
      rw [hmention] at h
      rw [Option.bind_some]
      dsimp only at h
      cases hnew : ann.ident? with
      | none =>
        rw [hnew] at h
        cases h
        exact .refl hs
      | some new =>
        rw [hnew] at h
        obtain ⟨chain, u, hchain, h⟩ := bind_eq_ok.1 h
        obtain ⟨hscopes, rfl⟩ := Scope.chainOf_eq_ok.1 hchain
        rw [scopesOf, ← known, hscopes]
        exact .of_chain hs (hs.scopes n.id chain hA hscopes) h

/-- A return statement tells the functions around it of the type of its value. -/
theorem reports_ret (hn : s.nodes[n.id]? = some n) (hA : A n.id) (hshape : n.shape = .ret value) :
    Reports A s (tellResult n) (fun stmt => if n.id = stmt then fail .missingPart else tellResult n) [n.id] := by
  intro t js _ t' ht h
  -- the statement is what it was, as far as the identity of its value goes
  have houtline : (t.content n.id).outline = n.outline := by
    have hcontent := content_of_getElem? hn
    refine (ht.outline_eq hA ?_ (.inl ?_)).trans (congrArg outline hcontent)
    · rw [outcome, hcontent, result?, hshape]
      rfl
    · rw [hcontent, name?, hshape]
  refine ⟨[⟨n.id, (t.scopesOf n.id).getD [], value.bind fun v => (t.mention v).join.bind ident?⟩], ?_, rfl, ?_,
    fun stmt => ?_⟩
  · rw [flatMap_singleton]
    exact tellResult_follows ht.sound hA hshape h
  · exact forall_mem_singleton.2 (by rw [ht.scopesOf_eq])
  · unfold Return.Stops
    by_cases hid : n.id = stmt
    · have htype := returnedType_of_outline ht.sound hA houtline hshape
      simp only [find?_cons, hid, beq_self_eq_true, if_true]
      exact ⟨_, _, rfl, hid ▸ htype.symm⟩
    · simpa [hid] using h

section

variable (h : Reports A s (Pass.below self n) (fun stmt => Pass.below (self' stmt) n) l)
include h

theorem reports_annAssignRule :
    Reports A s (annAssignRule self n) (fun stmt => annAssignRule (self' stmt) n) l := by
  refine h.before_calm fun _ => ?_
  split
  · rename_i target ann value _ _
    have hrest (c : Option Node → TypeTerm → Bool) (text : TypeTerm → Option String) : Calm (do
        let value ← value.mapM current
        let v ← TypeStyle.genericOf (.text "auto") (← typeOf? value)
        if c value v then throwAt .incompatible (text v) n) :=
      (Along.optionMapM fun v _ => calm_current v).bind fun v => (calm_typeOf? v).bind fun t =>
        (calm_genericOf _ t).bind fun _ => of_ite calm_throwAt (.pure _)
    refine (calm_annotate _ _).bind fun _ => (calm_ofHint _).bind fun t => ?_
    split
    · exact of_ite ((calm_setFixedWidth true).bind fun _ => hrest _ _) (hrest _ _)
    · exact calm_fail.bind fun _ => hrest _ _
    · exact hrest _ _
  · exact .pure _

theorem reports_binOpRule :
    Reports A s (binOpRule self n) (fun stmt => binOpRule (self' stmt) n) l := by
  refine h.before_calm fun _ => ?_
  split
  · refine (calm_current _).bind fun l => (calm_operandType n l).bind fun left => ?_
    refine (calm_current _).bind fun r => (calm_operandType n r).bind fun right => ?_
    split
    · exact .pure _
    · exact calm_annotate n _
    · exact calm_annotate n _
    · exact calm_joinOperands n _ _ _
  · exact .pure _

end

/-- A pass over the node and the nodes below it comes upon the return statements there. -/
theorem reports_step (hn : s.nodes[n.id]? = some n) (hA : A n.id ∨ s.IsName n.id)
    (hself : ∀ c ∈ n.children, Reports A s (do self (← current c)) (fun stmt => do self' stmt (← current c)) (below c.id)) :
    Reports A s (step rules self n) (fun stmt => step (stoppedAt stmt) (self' stmt) n) (n.returnsWith below) := by
  have heach {cs : List Node} (hcs : cs ⊆ n.children) :
      Reports A s (Pass.each self cs) (fun stmt => Pass.each (self' stmt) cs) (cs.flatMap fun c => below c.id) :=
    .forM fun c hc => hself c (hcs hc)
  have hbelow : Reports A s (Pass.below self n) (fun stmt => Pass.below (self' stmt) n) (n.children.flatMap fun c => below c.id) :=
    heach (List.Subset.refl _)
  have hnamed := calm_named n
  have hunhinted (type : String) : Calm (do if !(← hasHint n) then annotate n (← typeName type)) :=
    (calm_hasHint n).bind fun _ => of_ite (hnamed type) (.pure _)
  obtain ⟨l, hl⟩ : ∃ l, l = n.returnsWith below := ⟨_, rfl⟩
  have hvisited (cs : List Node) (hcs : n.shape.visited = cs) (hreturn : n.isReturn = false) :
      l = cs.flatMap fun c => below c.id := by
    rw [hl, returnsWith, hcs, hreturn]
    simp
  have hplain (hvisits : n.shape.visited = n.shape.children) (hreturn : n.isReturn = false) :
      Reports A s (Pass.below self n) (fun stmt => Pass.below (self' stmt) n) l := hvisited _ hvisits hreturn ▸ hbelow
  rw [← hl]
  obtain ⟨id, _, _, shape⟩ := n
  cases shape with
  | name x u =>
    rw [hvisited [] rfl rfl]
    exact .calm ((calm_typeOf _).bind fun t => .optionForM fun t _ => calm_annotate _ t)
  | constant v u =>
    rw [hvisited [] rfl rfl]
    refine .calm (of_ite (.pure _) ((calm_primitive _).bind fun t => ?_))
    split
    · exact .pure _
    · exact (calm_setLifetime _ _).bind fun _ => calm_annotate _ _
  | list elts u =>
    rw [hvisited (elts ++ elts) rfl rfl, flatMap_append]
    cases elts with
    | nil => exact hbelow.before_calm fun _ => hunhinted _
    | cons e es => exact hbelow.bind fun _ => (heach (List.Subset.refl _)).before_calm fun _ => calm_listType _ (e :: es)
  | set elts =>
    rw [hvisited (elts ++ elts) rfl rfl, flatMap_append]
    exact hbelow.bind fun _ => (heach (List.Subset.refl _)).before_calm fun _ => calm_setType _ elts
  | dict keys values =>
    refine (hplain rfl rfl).before_calm fun _ => ?_
    refine of_ite (hunhinted _) ((calm_dictType keys values).bind fun type => (calm_annotateWith _ type).bind fun _ => ?_)
    refine (Along.filterMapM fun v => calm_hint? v).bind fun typed => ?_
    refine (Along.mapM fun t _ => calm_lifetimeOf t).bind fun lifetimes => (calm_hintOf _).bind fun t => ?_
    exact .optionForM fun t _ => calm_setLifetime t _
  | assign targets value =>
    rw [hvisited (targets ++ [value] ++ [value]) rfl rfl, flatMap_append, flatMap_singleton,
      ← append_nil (below value.id)]
    refine hbelow.bind fun _ => (hself value (by simp)).bind_bind fun _ => .calm ?_
    refine (calm_hintOf value).bind fun t => ?_
    split
    · exact .pure _
    · rename_i t
      refine .bind (.forIn fun target _ _ => (calm_hint? target).bind fun old => ?_) fun _ => .pure _
      have hfree (free : Bool) : Calm (if free then do
          annotate target t
          note t.id ({ · with inferred := true })
          pure (ForInStep.yield PUnit.unit)
        else pure (ForInStep.yield PUnit.unit)) :=
        of_ite ((calm_annotate target t).bind fun _ => .bind (calm_note fun _ => ⟨rfl, fun h => h⟩) fun _ => .pure _) (.pure _)
      split
      · exact .bind (.pure _) hfree
      · exact .bind (.pure _) hfree
      · exact (calm_factsOf _).bind fun _ => .bind (.pure _) hfree
  | annAssign target ann value simple => exact reports_annAssignRule (hplain rfl rfl)
  | augAssign target op value =>
    refine (hplain rfl rfl).before_calm fun _ => (calm_hintOf value).bind fun t => ?_
    split
    · exact .pure _
    · exact (calm_hasHint target).bind fun _ => of_ite (calm_annotate target _) (.pure _)
  | compare => exact (hplain rfl rfl).before_calm fun _ => hnamed _
  | ret value =>
    have hA : A id := hA.resolve_right fun hname => by
      have hname := hname.name?
      rw [content_of_getElem? hn] at hname
      cases hname
    exact hl ▸ hbelow.bind fun _ => reports_ret hn hA rfl
  | unaryOp op operand =>
    refine (hplain rfl rfl).before_calm fun _ => ?_
    refine (calm_current operand).bind fun c => (calm_definitionOf _ c).bind fun d => ?_
    split
    · exact .pure _
    · exact (calm_hint? _).bind fun t => .optionForM fun t _ => calm_note fun _ => ⟨rfl, fun _ => rfl⟩
  | binOp => exact reports_binOpRule (hplain rfl rfl)
  | classDef c => exact .after_calm (hnamed _) fun _ => hplain rfl rfl
  | «attribute» value attr u =>
    rw [hvisited [] rfl rfl]
    refine .calm ((calm_current value).bind fun c => of_ite ((calm_chain? _).bind fun chain => ?_) (.pure _))
    split
    · exact .pure _
    · refine (Scope.calm_isEnum _ _).bind fun _ => of_ite ((calm_find _ _).bind fun d => calm_note fun _ => ⟨rfl, fun _ => rfl⟩) (.pure _)
  | call func args keywords => exact .after_calm (calm_callType _) fun _ => hplain rfl rfl
  | subscript value index u =>
    refine .after_calm (calm_chainOf _) fun chain => .after_calm (calm_current value) fun c => ?_
    exact .after_calm (calm_find _ _) fun d =>
      .after_calm (.optionForM fun d _ => calm_subscriptType _ index d) fun _ => hplain rfl rfl
  | forLoop loop =>
    rw [hvisited (loop.target :: loop.iter :: (loop.target :: loop.iter :: loop.body ++ loop.orelse)) rfl rfl,
      flatMap_cons, flatMap_cons]
    refine (hself loop.target (by simp)).bind_bind fun _ => ?_
    refine (hself loop.iter (by simp)).bind_bind fun _ => ?_
    exact .after_calm (calm_targetType loop) fun _ => hbelow
  | boolOp =>
    rw [hvisited [] rfl rfl]
    exact .calm (hnamed _)
  | _ => exact hplain rfl rfl

/-- The way to the nodes below comes upon the return statements there, for so many levels. -/
def Visits (A : NodeId → Prop) (self : Node → Analysis Unit) (self' : NodeId → Node → Analysis Unit) (j : Nat) : Prop :=
  ∀ s n, SoundFor A s → s.nodes[n.id]? = some n → A n.id ∨ s.IsName n.id →
    Reports A s (self n) (fun stmt => self' stmt n) (s.returnsBelow j n.id)

theorem Visits.current {c : Node} {j : Nat} (h : Visits A self self' j) (hc : A c.id ∨ s.IsName c.id) :
    Reports A s (do self (← current c)) (fun stmt => do self' stmt (← current c)) (s.returnsBelow j c.id) := by
  intro t js a t' ht hrun
  have hc' : A c.id ∨ t.IsName c.id := hc.imp_right (ht.isName _)
  obtain ⟨_, m, hm⟩ := ht.sound.there hc'
  have hid : m.id = c.id := ht.sound.keyed _ m hm
  rw [bind_ok (current_of_getElem? hm)] at hrun
  obtain ⟨rs, hfollows, hstmts, hchains, hstops⟩ :=
    h t m ht.sound (hid.symm ▸ hm) (hid.symm ▸ hc') t [] a t' (.refl ht.sound) hrun
  refine ⟨rs, hfollows, ?_, fun r hr => ?_, fun stmt => ?_⟩
  · rw [hstmts, hid, ht.returnsBelow_eq j hc]
  · rw [hchains r hr, ht.scopesOf_eq]
  · have hrun' : (Session.current c >>= self' stmt) t = self' stmt m t := bind_ok (current_of_getElem? hm)
    dsimp only
    rw [hrun']
    exact hstops stmt

theorem visits (A : NodeId → Prop) (j : Nat) :
    Visits A (tie (step rules) (fun _ => (fail .tooDeep : Analysis Unit)) j)
      (fun stmt => tie (step (stoppedAt stmt)) (fun _ => (fail .tooDeep : Analysis Unit)) j) j := by
  induction j with
  | zero =>
    intro s n _ _ _ t js a t' _ h
    cases h
  | succ j ih =>
    intro s n hs hn hA
    have hcontent := content_of_getElem? hn
    rw [returnsBelow, hcontent]
    refine reports_step hn hA fun c hc => ih.current ?_
    rcases hA with hA | hname
    · exact hs.parts n.id hA c (hcontent.symm ▸ hc)
    · have hnone := children_of_name hname.name?
      rw [hcontent] at hnone
      rw [hnone] at hc
      cases hc

/-- Inference comes upon the return statements of a program, and only what they tell is told. -/
theorem reports_infer (hA : A n.id) :
    Reports A s (infer rules n) (fun stmt => infer (stoppedAt stmt) n) (s.returnsBelow nestingLimit n.id) := by
  refine .after_calm (calm_setFixedWidth false) fun _ => ?_
  exact ((visits A nestingLimit).current (.inl hA)).before_calm fun _ => .of_same fun _ _ _ h => by cases h; rfl

end Inference
end Polyglot
