import PolicyValue.Proofs.Agreement
import PolicyValue.Proofs.Safety

/-!
# What a seed can change in an import

Two imports of one archive draw two networks of the same widths and overwrite them.  No check looks
at a number that was drawn, so both imports come as far as each other; and whatever a record is
copied to is overwritten as a whole, so only a sub-network that was left out can differ.

* `Paired`: two computations end alike, step by step;
* `Archive.loadLayer_congr`: a load sees the shape of a layer, not what it holds;
* `Network.AgreesOutside`: two networks agree but for some sub-networks;
* `Network.ofArchive_seed`: two imports of one archive.
-/

namespace PolicyValue

/-! ## Two computations -/

/-- Two computations end alike: with the same error, of which `P` holds, or with related results. -/
inductive Paired {ε α β : Type} (P : ε → Prop) (R : α → β → Prop) : Except ε α → Except ε β → Prop
  | error {e : ε} (he : P e) : Paired P R (.error e) (.error e)
  | ok {a : α} {b : β} (hab : R a b) : Paired P R (.ok a) (.ok b)

namespace Paired

variable {ε α β γ δ : Type} {P : ε → Prop} {R : α → β → Prop} {S : γ → δ → Prop}

/-- A computation is paired with itself if `P` holds of all its errors. -/
theorem refl {x : Except ε α} (h : ∀ e, x = .error e → P e) : Paired P (· = ·) x x := by
  cases x with
  | error e => exact .error (h e rfl)
  | ok a => exact .ok rfl

/-- Paired computations that go on alike from related results are paired. -/
theorem bind {x : Except ε α} {y : Except ε β} {f : α → Except ε γ} {g : β → Except ε δ}
    (h : Paired P R x y) (hstep : ∀ a b, R a b → Paired P S (f a) (g b)) :
    Paired P S (x >>= f) (y >>= g) := by
  cases h with
  | error he => exact .error he
  | ok hab => exact hstep _ _ hab

/-- Results of paired computations may be passed on, to where they are related. -/
theorem map {x : Except ε α} {y : Except ε β} {f : α → γ} {g : β → δ} (h : Paired P R x y)
    (hstep : ∀ a b, R a b → S (f a) (g b)) : Paired P S (x.map f) (y.map g) := by
  cases h with
  | error he => exact .error he
  | ok hab => exact .ok (hstep _ _ hab)

/-- Computations are paired if they are after their results were passed on. -/
theorem of_map {x : Except ε α} {y : Except ε β} {f : α → γ} {g : β → δ}
    (h : Paired P S (x.map f) (y.map g)) : Paired P (fun a b => S (f a) (g b)) x y := by
  cases x <;> cases y <;> cases h
  · exact .error ‹_›
  · exact .ok ‹_›

/-- Paired computations are paired by what follows of their results. -/
theorem imp_ok {T : α → β → Prop} {x : Except ε α} {y : Except ε β} (h : Paired P R x y)
    (himp : ∀ a b, x = .ok a → y = .ok b → R a b → T a b) : Paired P T x y := by
  cases h with
  | error he => exact .error he
  | ok hab => exact .ok (himp _ _ rfl rfl hab)

/-- Two passes are paired if they are step by step. -/
theorem mapM {f : α → Except ε γ} {g : β → Except ε δ} {xs : List α} {ys : List β}
    (h : List.Forall₂ (fun x y => Paired P S (f x) (g y)) xs ys) :
    Paired P (List.Forall₂ S) (xs.mapM f) (ys.mapM g) := by
  induction h with
  | nil => exact .ok .nil
  | cons hxy _ ih =>
    rw [List.mapM_cons, List.mapM_cons]
    exact hxy.bind fun z w hzw => ih.bind fun zs ws hzsws => .ok (.cons hzw hzsws)

end Paired

/-- An error that does not complain of two epsilons. -/
def Error.SparesEpsilon (e : Error) : Prop :=
  ∀ archive network, e ≠ .epsilonMismatch archive network

/-! ## One layer -/

namespace Archive

/-- A record is there for both loads, or it is missing for both. -/
theorem paired_require (a : Archive) (key : String) :
    Paired Error.SparesEpsilon (· = ·) (a.require key) (a.require key) := by
  refine .refl fun e h => ?_
  unfold require at h
  split at h <;> cases h
  exact fun _ _ => nofun

/-- An affine layer is loaded over whatever weights and biases it has; its widths are checked. -/
theorem paired_loadLinear (a : Archive) (component name : String) {l m : Linear}
    (hinputs : l.inputs = m.inputs) (houtputs : l.outputs = m.outputs) :
    Paired Error.SparesEpsilon (· = ·) (a.loadLinear component name l)
      (a.loadLinear component name m) := by
  unfold loadLinear Linear.assign
  rw [hinputs, houtputs]
  refine (a.paired_require _).bind fun record _ hrecord => ?_
  subst hrecord
  cases record with
  | norm gamma beta => exact .error fun _ _ => nofun
  | affine kernel bias =>
    dsimp only
    by_cases hrows : kernel.length = m.inputs
    · by_cases hbias : bias.length = m.outputs
      · simp only [hrows, hbias, ne_eq, not_true, if_false]
        cases Linear.firstRagged? m.outputs kernel with
        | none => exact .ok rfl
        | some r => exact .error fun _ _ => nofun
      · simp only [hrows, hbias, ne_eq, not_true, not_false_iff, if_false, if_true]
        exact .error fun _ _ => nofun
    · simp only [hrows, ne_eq, not_false_iff, if_true]
      exact .error fun _ _ => nofun

/-- A normalization is loaded over whatever correction it has; its lengths are checked. -/
theorem paired_loadNorm (a : Archive) (component name : String) {n k : LayerNorm}
    (hgamma : n.gamma.length = k.gamma.length) (hbeta : n.beta.length = k.beta.length)
    (hepsilon : n.epsilon = k.epsilon) :
    Paired Error.SparesEpsilon (· = ·) (a.loadNorm component name n)
      (a.loadNorm component name k) := by
  unfold loadNorm LayerNorm.assign
  rw [hgamma, hbeta, hepsilon]
  refine (a.paired_require _).bind fun record _ hrecord => ?_
  subst hrecord
  cases record with
  | affine kernel bias => exact .error fun _ _ => nofun
  | norm gamma beta =>
    dsimp only
    by_cases hgamma' : gamma.length = k.gamma.length
    · by_cases hbeta' : beta.length = k.beta.length
      · simp only [hgamma', hbeta', ne_eq, not_true, if_false]
        exact .ok rfl
      · simp only [hgamma', hbeta', ne_eq, not_true, not_false_iff, if_false, if_true]
        exact .error fun _ _ => nofun
    · simp only [hgamma', ne_eq, not_false_iff, if_true]
      exact .error fun _ _ => nofun

/-- Two layers of one name, shape and epsilon load the same layer, or fail alike. -/
theorem paired_loadLayer (a : Archive) (component : String) {epsilon : Float32}
    {old old' : String × Layer} (hold : old.2.WellFormed epsilon)
    (hold' : old'.2.WellFormed epsilon) (hname : old.1 = old'.1)
    (hshape : old.2.shape = old'.2.shape) :
    Paired Error.SparesEpsilon (· = ·) (a.loadLayer component old)
      (a.loadLayer component old') := by
  obtain ⟨name, layer⟩ := old
  obtain ⟨name', layer'⟩ := old'
  obtain rfl : name = name' := hname
  cases layer with
  | linear l =>
    cases layer' with
    | norm n => cases hshape
    | linear m =>
      obtain ⟨hinputs, houtputs⟩ := LayerShape.affine.inj hshape
      exact (a.paired_loadLinear component name hinputs houtputs).map fun _ _ h => by rw [h]
  | norm n =>
    cases layer' with
    | linear m => cases hshape
    | norm k =>
      have hgamma : n.gamma.length = k.gamma.length := LayerShape.norm.inj hshape
      have hbeta : n.beta.length = k.beta.length := hold.1.trans (hgamma.trans hold'.1.symm)
      have hepsilon : n.epsilon = k.epsilon := hold.2.trans hold'.2.symm
      exact (a.paired_loadNorm component name hgamma hbeta hepsilon).map fun _ _ h => by rw [h]

/-! ## One sub-network -/

/-- Layers of one outline load the same layers, or fail alike. -/
theorem paired_loadLayers (a : Archive) (component : String) {epsilon : Float32}
    {old old' : Layers} (hold : old.WellFormed epsilon) (hold' : old'.WellFormed epsilon)
    (houtline : old.outline = old'.outline) :
    Paired Error.SparesEpsilon (· = ·) (a.loadLayers component old)
      (a.loadLayers component old') := by
  have hpairs : List.Forall₂ (fun entry entry' : String × Layer =>
      (entry.1, entry.2.shape) = (entry'.1, entry'.2.shape)) old old' :=
    forall₂_of_map_eq_map houtline
  have hloads : Paired Error.SparesEpsilon (List.Forall₂ (· = ·)) (a.loadLayers component old)
      (a.loadLayers component old') := by
    refine .mapM (forall₂_imp_of_mem hpairs fun entry hentry entry' hentry' hpair => ?_)
    obtain ⟨hname, hshape⟩ := Prod.mk.inj hpair
    exact a.paired_loadLayer component (hold entry hentry) (hold' entry' hentry') hname hshape
  rwa [List.forall₂_eq_eq_eq] at hloads

/-- Two sub-networks of one name and outline load the same layers unless they are skipped, or fail
alike. -/
theorem paired_loadComponent (a : Archive) {epsilon : Float32} {old old' : String × Layers}
    (hold : old.2.WellFormed epsilon) (hold' : old'.2.WellFormed epsilon) (hname : old.1 = old'.1)
    (houtline : old.2.outline = old'.2.outline) :
    Paired Error.SparesEpsilon
      (fun new new' => new.1 = old.1 ∧ new'.1 = old.1 ∧ (¬ a.Skips old → new.2 = new'.2))
      (a.loadComponent old) (a.loadComponent old') := by
  unfold loadComponent
  by_cases hskips : a.Skips old
  · rw [if_pos (omits_eq_true_iff.2 hskips),
      if_pos (omits_eq_true_iff.2 ((skips_iff_of_outline hname houtline).1 hskips))]
    exact .ok ⟨rfl, hname.symm, fun hnot => absurd hskips hnot⟩
  · rw [if_neg (mt omits_eq_true_iff.1 hskips),
      if_neg (mt omits_eq_true_iff.1 (mt (skips_iff_of_outline hname houtline).2 hskips)), ← hname]
    exact (a.paired_loadLayers old.1 hold hold' houtline).map fun _ _ h => ⟨rfl, rfl, fun _ => h⟩

end Archive

namespace Network

/-! ## Two networks -/

/-- Two networks agree but for the layers of some sub-networks. -/
structure AgreesOutside (names : List String) (net net' : Network) : Prop where
  /-- The widths and the epsilon. -/
  config_eq : net.config = net'.config
  /-- The sub-networks have the same names, and all but those named have the same layers. -/
  components : List.Forall₂ (fun component component' : String × Layers =>
    component.1 = component'.1 ∧ (component.1 ∉ names → component.2 = component'.2))
    net.components net'.components

/-- A sub-network that is skipped is reported. -/
theorem mem_fallbacks {net : Network} {a : Archive} {component : String × Layers}
    (hmem : component ∈ net.components) (hskips : a.Skips component) :
    component.1 ∈ (net.loadReport a).fallbacks :=
  List.mem_map_of_mem (List.mem_filter.2 ⟨hmem, Archive.omits_eq_true_iff.2 hskips⟩)

/-- With the epsilon of an archive its header is checked alone. -/
theorem paired_checkEpsilon (a : Archive) :
    Paired Error.SparesEpsilon (· = ·) (a.checkEpsilon a.header.epsilon)
      (a.checkEpsilon a.header.epsilon) := by
  refine .refl fun e h => ?_
  -- the epsilon is compared with itself, so only the validation can fail
  unfold Archive.checkEpsilon at h
  rw [if_neg (not_not_intro rfl)] at h
  unfold Archive.validate at h
  split_ifs at h <;> cases h <;> exact fun _ _ => nofun

/-- Two networks of one configuration with the epsilon of an archive load it to networks that agree
but for what was left out, or fail alike. -/
theorem paired_stage {net net' : Network} (h : net.WellFormed) (h' : net'.WellFormed)
    (hconfig : net.config = net'.config) {a : Archive}
    (hepsilon : net.config.epsilon = a.header.epsilon) :
    Paired Error.SparesEpsilon (AgreesOutside (net.loadReport a).fallbacks) (net.stage a)
      (net'.stage a) := by
  have hpass : Paired Error.SparesEpsilon (List.Forall₂ fun new new' : String × Layers =>
      new.1 = new'.1 ∧ (new.1 ∉ (net.loadReport a).fallbacks → new.2 = new'.2))
      ((net.stage a).map components) ((net'.stage a).map components) := by
    -- staging is one pass over the sub-networks, and the two passes are paired step by step
    rw [stage_components, stage_components, ← hconfig, hepsilon]
    refine (paired_checkEpsilon a).bind fun _ _ _ => .mapM ?_
    refine forall₂_imp_of_mem (h.outline_eq h' hconfig) fun old hold old' hold' hsame => ?_
    have hwell : old.2.WellFormed net.config.epsilon := h.layers old hold
    have hwell' : old'.2.WellFormed net.config.epsilon := hconfig ▸ h'.layers old' hold'
    refine (a.paired_loadComponent hwell hwell' hsame.1 hsame.2).imp_ok ?_
    rintro new new' - - ⟨hname, hname', hlayers⟩
    refine ⟨hname.trans hname'.symm, fun hreported => hlayers fun hskips => hreported ?_⟩
    rw [hname]
    exact mem_fallbacks hold hskips
  exact hpass.of_map.imp_ok fun _ _ hnet hnet' hcomponents =>
    ⟨(config_of_stage hnet).trans (hconfig.trans (config_of_stage hnet').symm), hcomponents⟩

/-! ## Two imports -/

/-- An import is a load of the network that is drawn. -/
theorem ofArchive_of_draw {a : Archive} {c : Config} {seed : UInt64} {net : Network}
    (h : draw { c with epsilon := a.header.epsilon } seed = .ok net) :
    ofArchive a c seed = (net.stage a).map fun staged => (staged, net.loadReport a) := by
  rw [ofArchive, h, ok_bind, load]
  cases net.stage a <;> rfl

/-- An import fails as the drawing of its network. -/
theorem ofArchive_of_draw_error {a : Archive} {c : Config} {seed : UInt64} {e : Error}
    (h : draw { c with epsilon := a.header.epsilon } seed = .error e) :
    ofArchive a c seed = .error e := by
  rw [ofArchive, h, error_bind]

/-- Two imports of one archive into networks that were drawn report the same and agree but for what
was left out, or fail alike. -/
theorem paired_ofArchive {a : Archive} {c c' : Config} (h : c.SameWidths c') {seed seed' : UInt64}
    {fresh fresh' : Network} (hfresh : draw { c with epsilon := a.header.epsilon } seed = .ok fresh)
    (hfresh' : draw { c' with epsilon := a.header.epsilon } seed' = .ok fresh') :
    Paired Error.SparesEpsilon
      (fun i i' : Network × LoadReport => i.2 = i'.2 ∧ i.1.AgreesOutside i.2.fallbacks i'.1)
      (ofArchive a c seed) (ofArchive a c' seed') := by
  obtain ⟨hwell, hconfig⟩ := draw_wellFormed hfresh
  obtain ⟨hwell', hconfig'⟩ := draw_wellFormed hfresh'
  have hsame : fresh.config = fresh'.config := by
    rw [hconfig, hconfig', h.withEpsilon_congr]
  have hepsilon : fresh.config.epsilon = a.header.epsilon := by rw [hconfig]
  rw [ofArchive_of_draw hfresh, ofArchive_of_draw hfresh', loadReport_congr fresh' fresh]
  exact (paired_stage hwell hwell' hsame hepsilon).map fun _ _ hagree => ⟨rfl, hagree⟩

/-- **An import depends on the seed only in what its report says was left out.**  Take two imports
of one archive, from any seeds and into configurations of the same widths, whatever their epsilons.
Either no network can be drawn for both, or both networks are drawn; then both imports fail with the
same error, which is not about two epsilons, or both succeed with the same report, and the networks
agree but for the sub-networks that it lists as left out. -/
theorem ofArchive_seed (a : Archive) {c c' : Config} (h : c.SameWidths c') (seed seed' : UInt64) :
    (draw { c with epsilon := a.header.epsilon } seed = .error .unboundedRange ∧
      draw { c' with epsilon := a.header.epsilon } seed' = .error .unboundedRange ∧
      ofArchive a c seed = .error .unboundedRange ∧
      ofArchive a c' seed' = .error .unboundedRange) ∨
    ((∃ fresh, draw { c with epsilon := a.header.epsilon } seed = .ok fresh) ∧
      (∃ fresh, draw { c' with epsilon := a.header.epsilon } seed' = .ok fresh) ∧
      ((∃ e, (∀ archive network, e ≠ .epsilonMismatch archive network) ∧
          ofArchive a c seed = .error e ∧ ofArchive a c' seed' = .error e) ∨
        ∃ net net' report, ofArchive a c seed = .ok (net, report) ∧
          ofArchive a c' seed' = .ok (net', report) ∧
          net.AgreesOutside report.fallbacks net')) := by
  by_cases hpos : Config.Positive { c with epsilon := a.header.epsilon }
  · have hpos' : Config.Positive { c' with epsilon := a.header.epsilon } :=
      h.withEpsilon_congr a.header.epsilon ▸ hpos
    obtain ⟨fresh, hfresh⟩ := exists_draw hpos seed
    obtain ⟨fresh', hfresh'⟩ := exists_draw hpos' seed'
    refine .inr ⟨⟨fresh, hfresh⟩, ⟨fresh', hfresh'⟩, ?_⟩
    have himports := paired_ofArchive h hfresh hfresh'
    generalize ofArchive a c seed = i, ofArchive a c' seed' = i' at himports
    cases himports with
    | error he => exact .inl ⟨_, he, rfl, rfl⟩
    | @ok i i' hagree =>
      obtain ⟨net, report⟩ := i
      obtain ⟨net', report'⟩ := i'
      obtain ⟨rfl, hagree⟩ := hagree
      exact .inr ⟨net, net', report, rfl, rfl, hagree⟩
  · have hpos' : ¬ Config.Positive { c' with epsilon := a.header.epsilon } :=
      h.withEpsilon_congr a.header.epsilon ▸ hpos
    have hfresh : draw _ seed = .error .unboundedRange := draw_eq_error_iff.2 hpos
    have hfresh' : draw _ seed' = .error .unboundedRange := draw_eq_error_iff.2 hpos'
    exact .inl ⟨hfresh, hfresh', ofArchive_of_draw_error hfresh, ofArchive_of_draw_error hfresh'⟩

/-- A legacy archive, imported from two seeds and once with an epsilon that no archive may have:
both imports are there, and may differ in the state encoder of the value. -/
theorem ofArchive_seed_legacy : ∃ source net net' report, draw Config.single 7 = .ok source ∧
    ofArchive source.toLegacyArchive Config.single 8 = .ok (net, report) ∧
    ofArchive source.toLegacyArchive { Config.single with epsilon := Scalar.infinity } 9 =
      .ok (net', report) ∧
    report.fallbacks = [valueStateEncoder] ∧ net.AgreesOutside report.fallbacks net' := by
  obtain ⟨source, net, report, hsource, himport, hfallbacks⟩ := exists_import_legacy_single
  have hwidths : Config.single.SameWidths { Config.single with epsilon := Scalar.infinity } :=
    ⟨rfl, rfl, rfl, rfl, rfl, rfl⟩
  obtain ⟨-, -, hundrawn, -⟩ | ⟨-, -, himports⟩ :=
    ofArchive_seed source.toLegacyArchive hwidths 8 9
  · exact nomatch himport.symm.trans hundrawn
  · obtain ⟨e, -, hfails, -⟩ | ⟨net₁, net', report₁, hok, hok', hagree⟩ := himports
    · exact nomatch himport.symm.trans hfails
    · obtain ⟨rfl, rfl⟩ := Prod.mk.inj (Except.ok.inj (himport.symm.trans hok))
      exact ⟨source, net, net', report, hsource, himport, hok', hfallbacks, hagree⟩

end Network

end PolicyValue
