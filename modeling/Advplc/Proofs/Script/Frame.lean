import Advplc.Proofs.Script.Parts

/-!
# Expressions with open places

An expression in which some parts are left out is again an expression, with a foreign thing in each
open place.  `Expr.fill` puts expressions into the open places, and `Expr.openings` lists the places
in the order of the source.

What is filled in here are *effects*: the calls, constructions, updates and assignments, which must
not be evaluated more or less often than they are written.  The rest of an expression can hardly
tell one of them from another (`natural?_fill`, `isThis_fill`, `startsWithOperator_fill`).
-/

set_option autoImplicit false

namespace Advplc.Script

/-! ## Filling -/

mutual

/-- The expression with its open places filled. -/
def Expr.fill (σ : Foreign → Expr) : Expr → Expr
  | .foreign f => σ f
  | .template p cs hs => .template p cs (Expr.fillAll σ hs)
  | .binary p op l r => .binary p op (l.fill σ) (r.fill σ)
  | .unary p op e => .unary p op (e.fill σ)
  | .update p op side e => .update p op side (e.fill σ)
  | .assign p op t v => .assign p op (t.fill σ) (v.fill σ)
  | .conditional p t y n => .conditional p (t.fill σ) (y.fill σ) (n.fill σ)
  | .object p ps => .object p (Expr.fillProperties σ ps)
  | .array p es => .array p (Expr.fillAll σ es)
  | .member p o n q => .member p (o.fill σ) n q
  | .index p o k => .index p (o.fill σ) (k.fill σ)
  | .call p f as => .call p (f.fill σ) (Expr.fillAll σ as)
  | .new p f as => .new p (f.fill σ) (Expr.fillAll σ as)
  | e => e

/-- Expressions with their open places filled. -/
def Expr.fillAll (σ : Foreign → Expr) : List Expr → List Expr
  | [] => []
  | e :: es => e.fill σ :: Expr.fillAll σ es

/-- Properties with the open places of their values filled. -/
def Expr.fillProperties (σ : Foreign → Expr) : List (Lexeme × Expr) → List (Lexeme × Expr)
  | [] => []
  | (k, v) :: ps => (k, v.fill σ) :: Expr.fillProperties σ ps

end

mutual

/-- The open places of an expression, in the order of the source. -/
def Expr.openings : Expr → List Foreign
  | .foreign f => [f]
  | .template _ _ hs => Expr.openingsAll hs
  | .binary _ _ l r | .assign _ _ l r | .index _ l r => l.openings ++ r.openings
  | .unary _ _ e | .update _ _ _ e | .member _ e _ _ => e.openings
  | .conditional _ t y n => t.openings ++ y.openings ++ n.openings
  | .object _ ps => Expr.openingsProperties ps
  | .array _ es => Expr.openingsAll es
  | .call _ f as | .new _ f as => f.openings ++ Expr.openingsAll as
  | _ => []

/-- The open places of expressions. -/
def Expr.openingsAll : List Expr → List Foreign
  | [] => []
  | e :: es => e.openings ++ Expr.openingsAll es

/-- The open places of properties. -/
def Expr.openingsProperties : List (Lexeme × Expr) → List Foreign
  | [] => []
  | (_, v) :: ps => v.openings ++ Expr.openingsProperties ps

end

section Lists

variable (σ : Foreign → Expr)

theorem Expr.length_fillAll (es : List Expr) : (Expr.fillAll σ es).length = es.length := by
  induction es with
  | nil => rfl
  | cons e es ih => rw [fillAll, List.length_cons, List.length_cons, ih]

theorem Expr.flatten_openings (es : List Expr) :
    (es.map Expr.openings).flatten = Expr.openingsAll es := by
  induction es with
  | nil => rfl
  | cons e es ih => rw [List.map_cons, List.flatten_cons, openingsAll, ih]

theorem Expr.openings_values (ps : List (Lexeme × Expr)) :
    Expr.openingsProperties ps = Expr.openingsAll (ps.map Prod.snd) := by
  induction ps with
  | nil => rfl
  | cons x ps ih => rw [openingsProperties, List.map_cons, openingsAll, ih]

end Lists

mutual

/-- What is filled in stands inside the filled expression. -/
theorem Expr.has_fill {σ : Foreign → Expr} {p : Expr → Bool} (c : Expr)
    (h : (c.fill σ).has p = false) : ∀ f ∈ c.openings, (σ f).has p = false := by
  cases c with
  | foreign f => simpa [openings, fill] using h
  | template q cs hs =>
    rw [fill, has_template, Bool.or_eq_false_iff] at h
    exact Expr.someHas_fillAll hs h.2
  | binary q op l r =>
    rw [fill, has_binary, Bool.or_eq_false_iff, Bool.or_eq_false_iff] at h
    rw [openings]
    exact List.forall_mem_append.mpr ⟨Expr.has_fill l h.2.1, Expr.has_fill r h.2.2⟩
  | unary q op e =>
    rw [fill, has_unary, Bool.or_eq_false_iff] at h
    exact Expr.has_fill e h.2
  | update q op side e =>
    rw [fill, has_update, Bool.or_eq_false_iff] at h
    exact Expr.has_fill e h.2
  | assign q op t v =>
    rw [fill, has_assign, Bool.or_eq_false_iff, Bool.or_eq_false_iff] at h
    rw [openings]
    exact List.forall_mem_append.mpr ⟨Expr.has_fill t h.2.1, Expr.has_fill v h.2.2⟩
  | conditional q t y n =>
    rw [fill, has_conditional, Bool.or_eq_false_iff, Bool.or_eq_false_iff,
      Bool.or_eq_false_iff] at h
    rw [openings, List.forall_mem_append, List.forall_mem_append]
    exact ⟨⟨Expr.has_fill t h.2.1, Expr.has_fill y h.2.2.1⟩, Expr.has_fill n h.2.2.2⟩
  | object q ps =>
    rw [fill, has_object, Bool.or_eq_false_iff] at h
    exact Expr.someHas_fillProperties ps h.2
  | array q es =>
    rw [fill, has_array, Bool.or_eq_false_iff] at h
    exact Expr.someHas_fillAll es h.2
  | member q o n r =>
    rw [fill, has_member, Bool.or_eq_false_iff] at h
    exact Expr.has_fill o h.2
  | index q o k =>
    rw [fill, has_index, Bool.or_eq_false_iff, Bool.or_eq_false_iff] at h
    rw [openings]
    exact List.forall_mem_append.mpr ⟨Expr.has_fill o h.2.1, Expr.has_fill k h.2.2⟩
  | call q f as =>
    rw [fill, has_call, Bool.or_eq_false_iff, Bool.or_eq_false_iff] at h
    rw [openings]
    exact List.forall_mem_append.mpr ⟨Expr.has_fill f h.2.1, Expr.someHas_fillAll as h.2.2⟩
  | new q f as =>
    rw [fill, has_new, Bool.or_eq_false_iff, Bool.or_eq_false_iff] at h
    rw [openings]
    exact List.forall_mem_append.mpr ⟨Expr.has_fill f h.2.1, Expr.someHas_fillAll as h.2.2⟩
  | _ => simp [openings]

theorem Expr.someHas_fillAll {σ : Foreign → Expr} {p : Expr → Bool} (cs : List Expr)
    (h : Expr.someHas p (Expr.fillAll σ cs) = false) :
    ∀ f ∈ Expr.openingsAll cs, (σ f).has p = false := by
  cases cs with
  | nil => simp [openingsAll]
  | cons c cs =>
    rw [fillAll, someHas_cons, Bool.or_eq_false_iff] at h
    rw [openingsAll]
    exact List.forall_mem_append.mpr ⟨Expr.has_fill c h.1, Expr.someHas_fillAll cs h.2⟩

theorem Expr.someHas_fillProperties {σ : Foreign → Expr} {p : Expr → Bool}
    (ps : List (Lexeme × Expr))
    (h : Expr.someHas p ((Expr.fillProperties σ ps).map Prod.snd) = false) :
    ∀ f ∈ Expr.openingsProperties ps, (σ f).has p = false := by
  cases ps with
  | nil => simp [openingsProperties]
  | cons x ps =>
    obtain ⟨k, v⟩ := x
    rw [fillProperties, List.map_cons, someHas_cons, Bool.or_eq_false_iff] at h
    rw [openingsProperties]
    exact List.forall_mem_append.mpr ⟨Expr.has_fill v h.1, Expr.someHas_fillProperties ps h.2⟩

end

/-! ## Frames -/

mutual

/-- An expression of the grammar has no open places. -/
theorem Expr.fill_of_regular (σ : Foreign → Expr) (e : Expr) (h : e.Regular) :
    e.openings = [] ∧ e.fill σ = e := by
  cases e with
  | foreign f => cases h
  | template q cs hs =>
    have hhs := Expr.fillAll_of_regular σ hs (regular_template.mp h).2
    exact ⟨hhs.1, by rw [fill, hhs.2]⟩
  | binary q op l r =>
    obtain ⟨-, hl, hr⟩ := regular_binary.mp h
    obtain ⟨hl, hl'⟩ := Expr.fill_of_regular σ l hl
    obtain ⟨hr, hr'⟩ := Expr.fill_of_regular σ r hr
    exact ⟨by rw [openings, hl, hr]; rfl, by rw [fill, hl', hr']⟩
  | unary q op e =>
    obtain ⟨he, he'⟩ := Expr.fill_of_regular σ e (regular_unary.mp h).2
    exact ⟨he, by rw [fill, he']⟩
  | update q op side e =>
    obtain ⟨he, he'⟩ := Expr.fill_of_regular σ e (regular_update.mp h)
    exact ⟨he, by rw [fill, he']⟩
  | assign q op t v =>
    obtain ⟨-, ht, hv⟩ := regular_assign.mp h
    obtain ⟨ht, ht'⟩ := Expr.fill_of_regular σ t ht
    obtain ⟨hv, hv'⟩ := Expr.fill_of_regular σ v hv
    exact ⟨by rw [openings, ht, hv]; rfl, by rw [fill, ht', hv']⟩
  | conditional q t y n =>
    obtain ⟨ht, hy, hn⟩ := regular_conditional.mp h
    obtain ⟨ht, ht'⟩ := Expr.fill_of_regular σ t ht
    obtain ⟨hy, hy'⟩ := Expr.fill_of_regular σ y hy
    obtain ⟨hn, hn'⟩ := Expr.fill_of_regular σ n hn
    exact ⟨by rw [openings, ht, hy, hn]; rfl, by rw [fill, ht', hy', hn']⟩
  | object q ps =>
    obtain ⟨hps, hps'⟩ := Expr.fillProperties_of_regular σ ps (regular_object.mp h)
    exact ⟨hps, by rw [fill, hps']⟩
  | array q es =>
    obtain ⟨hes, hes'⟩ := Expr.fillAll_of_regular σ es (regular_array.mp h)
    exact ⟨hes, by rw [fill, hes']⟩
  | member q o n r =>
    obtain ⟨ho, ho'⟩ := Expr.fill_of_regular σ o (regular_member.mp h)
    exact ⟨ho, by rw [fill, ho']⟩
  | index q o k =>
    obtain ⟨ho, hk⟩ := regular_index.mp h
    obtain ⟨ho, ho'⟩ := Expr.fill_of_regular σ o ho
    obtain ⟨hk, hk'⟩ := Expr.fill_of_regular σ k hk
    exact ⟨by rw [openings, ho, hk]; rfl, by rw [fill, ho', hk']⟩
  | call q f as =>
    obtain ⟨hf, has⟩ := regular_call.mp h
    obtain ⟨hf, hf'⟩ := Expr.fill_of_regular σ f hf
    obtain ⟨has, has'⟩ := Expr.fillAll_of_regular σ as has
    exact ⟨by rw [openings, hf, has]; rfl, by rw [fill, hf', has']⟩
  | new q f as =>
    obtain ⟨hf, has⟩ := regular_new.mp h
    obtain ⟨hf, hf'⟩ := Expr.fill_of_regular σ f hf
    obtain ⟨has, has'⟩ := Expr.fillAll_of_regular σ as has
    exact ⟨by rw [openings, hf, has]; rfl, by rw [fill, hf', has']⟩
  | _ => exact ⟨rfl, rfl⟩

theorem Expr.fillAll_of_regular (σ : Foreign → Expr) (es : List Expr) (h : Expr.AllRegular es) :
    Expr.openingsAll es = [] ∧ Expr.fillAll σ es = es := by
  cases es with
  | nil => exact ⟨rfl, rfl⟩
  | cons e es =>
    obtain ⟨he, hes⟩ := allRegular_cons.mp h
    obtain ⟨he, he'⟩ := Expr.fill_of_regular σ e he
    obtain ⟨hes, hes'⟩ := Expr.fillAll_of_regular σ es hes
    exact ⟨by rw [openingsAll, he, hes]; rfl, by rw [fillAll, he', hes']⟩

theorem Expr.fillProperties_of_regular (σ : Foreign → Expr) (ps : List (Lexeme × Expr))
    (h : Expr.AllRegular (ps.map Prod.snd)) :
    Expr.openingsProperties ps = [] ∧ Expr.fillProperties σ ps = ps := by
  cases ps with
  | nil => exact ⟨rfl, rfl⟩
  | cons x ps =>
    obtain ⟨k, v⟩ := x
    obtain ⟨hv, hps⟩ := allRegular_cons.mp h
    obtain ⟨hv, hv'⟩ := Expr.fill_of_regular σ v hv
    obtain ⟨hps, hps'⟩ := Expr.fillProperties_of_regular σ ps hps
    exact ⟨by rw [openingsProperties, hv, hps]; rfl, by rw [fillProperties, hv', hps']⟩

end

/-- The expression with the place of `x` left open. -/
def Expr.IsFrame (f : Foreign) (x c e : Expr) : Prop := c.openings = [f] ∧ c.fill (fun _ ↦ x) = e

/-- What is an expression or stands inside it has a frame, if what stands inside it has one. -/
theorem Expr.frame_of_inside {f : Foreign} {x e : Expr}
    (h : x ∈ e.inside → ∃ c, (∀ g, c ≠ .foreign g) ∧ IsFrame f x c e) (hx : x ∈ e :: e.inside) :
    ∃ c, IsFrame f x c e := by
  obtain rfl | hx := List.mem_cons.mp hx
  · exact ⟨.foreign f, rfl, rfl⟩
  · obtain ⟨c, -, hc⟩ := h hx
    exact ⟨c, hc⟩

section Frames

variable {f : Foreign} {x : Expr}

/-- In a node with two operands, what can be left open in one of them can be left open. -/
theorem Expr.exists_frame_of_operands (node : Expr → Expr → Expr)
    (hnode : ∀ c d, (∀ g, node c d ≠ .foreign g) ∧
      (node c d).openings = c.openings ++ d.openings ∧
      (node c d).fill (fun _ ↦ x) = node (c.fill fun _ ↦ x) (d.fill fun _ ↦ x))
    {l r : Expr} (hl : l.Regular) (hr : r.Regular)
    (hleft : x ∈ l.inside → ∃ c, (∀ g, c ≠ .foreign g) ∧ IsFrame f x c l)
    (hright : x ∈ r.inside → ∃ c, (∀ g, c ≠ .foreign g) ∧ IsFrame f x c r)
    (hx : x ∈ l :: l.inside ++ r :: r.inside) :
    ∃ c, (∀ g, c ≠ .foreign g) ∧ IsFrame f x c (node l r) := by
  obtain ⟨hlopen, hlfill⟩ := Expr.fill_of_regular (fun _ ↦ x) l hl
  obtain ⟨hropen, hrfill⟩ := Expr.fill_of_regular (fun _ ↦ x) r hr
  obtain hx | hx := List.mem_append.mp hx
  · obtain ⟨c, hc, hfill⟩ := frame_of_inside hleft hx
    obtain ⟨hforeign, hopen, hnode⟩ := hnode c r
    exact ⟨node c r, hforeign, by rw [hopen, hc, hropen]; rfl, by rw [hnode, hfill, hrfill]⟩
  · obtain ⟨c, hc, hfill⟩ := frame_of_inside hright hx
    obtain ⟨hforeign, hopen, hnode⟩ := hnode l c
    exact ⟨node l c, hforeign, by rw [hopen, hlopen, hc]; rfl, by rw [hnode, hlfill, hfill]⟩

/-- In a call, what can be left open in what is called or in the arguments can be left open. -/
theorem Expr.exists_frame_of_arguments (node : Expr → List Expr → Expr)
    (hnode : ∀ c ds, (∀ g, node c ds ≠ .foreign g) ∧
      (node c ds).openings = c.openings ++ Expr.openingsAll ds ∧
      (node c ds).fill (fun _ ↦ x) = node (c.fill fun _ ↦ x) (Expr.fillAll (fun _ ↦ x) ds))
    {g : Expr} {as : List Expr} (hg : g.Regular) (has : Expr.AllRegular as)
    (hcallee : x ∈ g.inside → ∃ c, (∀ g, c ≠ .foreign g) ∧ IsFrame f x c g)
    (harguments : x ∈ Expr.insideAll as →
      ∃ cs, Expr.openingsAll cs = [f] ∧ Expr.fillAll (fun _ ↦ x) cs = as)
    (hx : x ∈ g :: g.inside ++ Expr.insideAll as) :
    ∃ c, (∀ g, c ≠ .foreign g) ∧ IsFrame f x c (node g as) := by
  obtain ⟨hgopen, hgfill⟩ := Expr.fill_of_regular (fun _ ↦ x) g hg
  obtain ⟨hasopen, hasfill⟩ := Expr.fillAll_of_regular (fun _ ↦ x) as has
  obtain hx | hx := List.mem_append.mp hx
  · obtain ⟨c, hc, hfill⟩ := frame_of_inside hcallee hx
    obtain ⟨hforeign, hopen, hnode⟩ := hnode c as
    exact ⟨node c as, hforeign, by rw [hopen, hc, hasopen]; rfl, by rw [hnode, hfill, hasfill]⟩
  · obtain ⟨cs, hcs, hfill⟩ := harguments hx
    obtain ⟨hforeign, hopen, hnode⟩ := hnode g cs
    exact ⟨node g cs, hforeign, by rw [hopen, hgopen, hcs]; rfl, by rw [hnode, hgfill, hfill]⟩

mutual

/-- **Each expression inside another can be left open in it.** -/
theorem Expr.exists_frame (e : Expr) (h : e.Regular) (hx : x ∈ e.inside) :
    ∃ c, (∀ g, c ≠ .foreign g) ∧ IsFrame f x c e := by
  cases e with
  | template q cs hs =>
    obtain ⟨ds, hds, hfill⟩ := Expr.exists_frames hs (regular_template.mp h).2 hx
    exact ⟨.template q cs ds, nofun, hds, by rw [fill, hfill]⟩
  | binary q op l r =>
    obtain ⟨-, hl, hr⟩ := regular_binary.mp h
    exact exists_frame_of_operands (.binary q op)
      (fun _ _ ↦ ⟨nofun, by rw [openings], by rw [fill]⟩) hl hr (Expr.exists_frame l hl)
      (Expr.exists_frame r hr) hx
  | assign q op t v =>
    obtain ⟨-, ht, hv⟩ := regular_assign.mp h
    exact exists_frame_of_operands (.assign q op)
      (fun _ _ ↦ ⟨nofun, by rw [openings], by rw [fill]⟩) ht hv (Expr.exists_frame t ht)
      (Expr.exists_frame v hv) hx
  | index q o k =>
    obtain ⟨ho, hk⟩ := regular_index.mp h
    exact exists_frame_of_operands (.index q) (fun _ _ ↦ ⟨nofun, by rw [openings], by rw [fill]⟩)
      ho hk (Expr.exists_frame o ho) (Expr.exists_frame k hk) hx
  | unary q op e =>
    obtain ⟨c, hc, hfill⟩ := frame_of_inside (Expr.exists_frame e (regular_unary.mp h).2) hx
    exact ⟨.unary q op c, nofun, hc, by rw [fill, hfill]⟩
  | update q op side e =>
    obtain ⟨c, hc, hfill⟩ := frame_of_inside (Expr.exists_frame e (regular_update.mp h)) hx
    exact ⟨.update q op side c, nofun, hc, by rw [fill, hfill]⟩
  | member q o n r =>
    obtain ⟨c, hc, hfill⟩ := frame_of_inside (Expr.exists_frame o (regular_member.mp h)) hx
    exact ⟨.member q c n r, nofun, hc, by rw [fill, hfill]⟩
  | conditional q t y n =>
    obtain ⟨ht, hy, hn⟩ := regular_conditional.mp h
    obtain ⟨holes, ht'⟩ := Expr.fill_of_regular (fun _ ↦ x) t ht
    obtain ⟨holes', hy'⟩ := Expr.fill_of_regular (fun _ ↦ x) y hy
    obtain ⟨holes'', hn'⟩ := Expr.fill_of_regular (fun _ ↦ x) n hn
    rw [inside, List.mem_append, List.mem_append] at hx
    obtain (hx | hx) | hx := hx
    · obtain ⟨c, hc, hfill⟩ := frame_of_inside (Expr.exists_frame t ht) hx
      exact ⟨.conditional q c y n, nofun, by rw [openings, hc, holes', holes'']; rfl,
        by rw [fill, hfill, hy', hn']⟩
    · obtain ⟨c, hc, hfill⟩ := frame_of_inside (Expr.exists_frame y hy) hx
      exact ⟨.conditional q t c n, nofun, by rw [openings, hc, holes, holes'']; rfl,
        by rw [fill, ht', hfill, hn']⟩
    · obtain ⟨c, hc, hfill⟩ := frame_of_inside (Expr.exists_frame n hn) hx
      exact ⟨.conditional q t y c, nofun, by rw [openings, hc, holes, holes']; rfl,
        by rw [fill, ht', hy', hfill]⟩
  | object q ps =>
    obtain ⟨qs, hqs, hfill⟩ := Expr.exists_frameProperties ps (regular_object.mp h) hx
    exact ⟨.object q qs, nofun, hqs, by rw [fill, hfill]⟩
  | array q es =>
    obtain ⟨ds, hds, hfill⟩ := Expr.exists_frames es (regular_array.mp h) hx
    exact ⟨.array q ds, nofun, hds, by rw [fill, hfill]⟩
  | call q g as =>
    obtain ⟨hg, has⟩ := regular_call.mp h
    exact exists_frame_of_arguments (.call q)
      (fun _ _ ↦ ⟨nofun, by rw [openings], by rw [fill]⟩) hg has (Expr.exists_frame g hg)
      (Expr.exists_frames as has) hx
  | new q g as =>
    obtain ⟨hg, has⟩ := regular_new.mp h
    exact exists_frame_of_arguments (.new q)
      (fun _ _ ↦ ⟨nofun, by rw [openings], by rw [fill]⟩) hg has (Expr.exists_frame g hg)
      (Expr.exists_frames as has) hx
  | _ => cases hx

theorem Expr.exists_frames (es : List Expr) (h : Expr.AllRegular es) (hx : x ∈ Expr.insideAll es) :
    ∃ cs, Expr.openingsAll cs = [f] ∧ Expr.fillAll (fun _ ↦ x) cs = es := by
  cases es with
  | nil => cases hx
  | cons e es =>
    obtain ⟨he, hes⟩ := allRegular_cons.mp h
    obtain ⟨holes, he'⟩ := Expr.fill_of_regular (fun _ ↦ x) e he
    obtain ⟨holes', hes'⟩ := Expr.fillAll_of_regular (fun _ ↦ x) es hes
    obtain hx | hx := List.mem_append.mp hx
    · obtain ⟨c, hc, hfill⟩ := frame_of_inside (Expr.exists_frame e he) hx
      exact ⟨c :: es, by rw [openingsAll, hc, holes']; rfl, by rw [fillAll, hfill, hes']⟩
    · obtain ⟨cs, hcs, hfill⟩ := Expr.exists_frames es hes hx
      exact ⟨e :: cs, by rw [openingsAll, holes, hcs]; rfl, by rw [fillAll, he', hfill]⟩

theorem Expr.exists_frameProperties (ps : List (Lexeme × Expr))
    (h : Expr.AllRegular (ps.map Prod.snd)) (hx : x ∈ Expr.insideProperties ps) :
    ∃ qs, Expr.openingsProperties qs = [f] ∧ Expr.fillProperties (fun _ ↦ x) qs = ps := by
  cases ps with
  | nil => cases hx
  | cons y ps =>
    obtain ⟨k, v⟩ := y
    obtain ⟨hv, hps⟩ := allRegular_cons.mp h
    obtain ⟨holes, hv'⟩ := Expr.fill_of_regular (fun _ ↦ x) v hv
    obtain ⟨holes', hps'⟩ := Expr.fillProperties_of_regular (fun _ ↦ x) ps hps
    obtain hx | hx := List.mem_append.mp hx
    · obtain ⟨c, hc, hfill⟩ := frame_of_inside (Expr.exists_frame v hv) hx
      exact ⟨(k, c) :: ps, by rw [openingsProperties, hc, holes']; rfl,
        by rw [fillProperties, hfill, hps']⟩
    · obtain ⟨qs, hqs, hfill⟩ := Expr.exists_frameProperties ps hps hx
      exact ⟨(k, v) :: qs, by rw [openingsProperties, holes, hqs]; rfl,
        by rw [fillProperties, hv', hfill]⟩

end

end Frames

/-! ## Effects -/

/-- What must be evaluated as often as it is written. -/
inductive Effect where
  | call
  | new
  | update
  | assign
deriving DecidableEq

/-- The sort of effect that an expression is, if it is one. -/
def Expr.effect? : Expr → Option Effect
  | .call _ _ _ => some .call
  | .new _ _ _ => some .new
  | .update _ _ _ _ => some .update
  | .assign _ _ _ _ => some .assign
  | _ => none

section Effects

open Lowering

variable {σ τ : Foreign → Expr} {c : Expr}

theorem Expr.natural?_fill (h : ∀ f ∈ c.openings, (σ f).effect?.isSome = true) :
    natural? (c.fill σ) = natural? c := by
  cases c with
  | foreign f =>
    have hf := h f List.mem_cons_self
    rw [fill]
    cases hσ : σ f <;> first | rfl | (rw [hσ] at hf; cases hf)
  | _ => rfl

theorem Expr.isThis_fill (h : ∀ f ∈ c.openings, (σ f).effect?.isSome = true) :
    isThis (c.fill σ) = isThis c := by
  cases c with
  | foreign f =>
    have hf := h f List.mem_cons_self
    rw [fill]
    cases hσ : σ f <;> first | rfl | (rw [hσ] at hf; cases hf)
  | _ => rfl

/-- Of the effects, only an update begins or ends with an operator. -/
theorem Expr.startsWithOperator_of_effect? {e : Expr} {k : Effect} (h : e.effect? = some k) :
    startsWithOperator e = decide (k = .update) := by
  cases e <;> cases h <;> rfl

theorem Expr.startsWithOperator_fill
    (h : ∀ f ∈ c.openings, (σ f).effect?.isSome = true ∧ (τ f).effect? = (σ f).effect?) :
    startsWithOperator (c.fill τ) = startsWithOperator (c.fill σ) := by
  cases c with
  | foreign f =>
    obtain ⟨hσ, hτ⟩ := h f List.mem_cons_self
    obtain ⟨k, hk⟩ := Option.isSome_iff_exists.mp hσ
    rw [fill, fill, startsWithOperator_of_effect? hk, startsWithOperator_of_effect? (hτ.trans hk)]
  | _ => rfl

end Effects

end Advplc.Script
