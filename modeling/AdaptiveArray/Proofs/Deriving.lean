import AdaptiveArray.Json.Reader
import AdaptiveArray.Proofs.Combining
import AdaptiveArray.Proofs.Performing

/-!
# New arrays in a sound arena

Arrays made afresh, from values, from a text or from other arrays.
-/

namespace AdaptiveArray

variable {sharing : Prop} {held : List ArrayId} {a : Arena} {id : ArrayId}

theorem Body.New.belongs {b : Body} {xs : List Value} (h : b.New xs)
    (hknown : ∀ v ∈ xs, a.Knows v) : b.Belongs a where
  fits := h.shows.fits
  known v hv := hknown v (h.shows.toList ▸ hv)
  backs k hk := by
    rw [h.backing] at hk
    cases hk

theorem Body.Belongs.clone {b : Body} (h : b.Belongs a) : b.clone.Belongs a where
  fits := (Body.shows_clone h.fits).fits
  known v hv := h.known v ((Body.shows_clone h.fits).toList ▸ hv)
  backs k hk := h.backs k (Store.backing?_of_clone hk)

theorem Body.Belongs.knows_getD {b : Body} (h : b.Belongs a) (i : Nat) :
    a.Knows ((b.get? i).getD .nil) := by
  cases hv : b.get? i with
  | none => exact nofun
  | some v => exact h.known v (Body.mem_of_get? h.fits hv)

theorem Body.belongs_empty : Body.empty.Belongs a :=
  Body.new_empty.belongs nofun

theorem Arena.Sound.booked {b : Arena} (h : a.Sound sharing held) (hbooked : a.Booked b) :
    b.Sound sharing held ∧ a.Later held b :=
  Arena.Tally.booked (R := Arena.Evolves sharing held) hbooked h

namespace Action

theorem keeps_new {act : Action Body} {xs : List Value} (h : a.Sound sharing held)
    (hxs : ∀ v ∈ xs, a.Knows v)
    (hact : Ends act a (fun b c => a.Booked c ∧ b.New xs) fun f c => f.Fatal ∨ c = a) :
    act.Keeps sharing held a fun b c => b.Belongs c := by
  refine hact.mono ?_ ?_
  · rintro b c ⟨hbooked, hnew⟩
    have hc := h.booked hbooked
    exact ⟨hc, hnew.belongs fun v hv => hc.2.knows (hxs v hv)⟩
  · rintro f c (hf | rfl)
    · exact .inl hf
    · exact .inr ⟨h, .refl c⟩

theorem keeps_ofValues (h : a.Sound sharing held) {vs : List Value} (hvs : ∀ v ∈ vs, a.Knows v) :
    (ofValues vs).Keeps sharing held a fun b c => b.Belongs c :=
  keeps_new h hvs <| (ends_ofValues vs fun _ _ => .inl Fault.fatal_outOfMemory).weaken
    fun _ _ hbody => hbody.imp_right Body.Gathered.new

theorem keeps_allocate (h : a.Sound sharing held) (k : Kind) (n : Nat) :
    (allocate k n).Keeps sharing held a fun s c => ({ store := s } : Body).Belongs c := by
  refine (ends_allocate k n fun _ => .inl Fault.fatal_outOfMemory).mono ?_ fun _ _ hf => hf
  rintro fresh c ⟨hbooked, hblank⟩
  have hnew : ({ store := fresh } : Body).New [] := ⟨hblank.shows, hblank.backing, rfl⟩
  exact ⟨h.booked hbooked, hnew.belongs nofun⟩

end Action

theorem Body.belongs_ofBuffer {b : Buffer} (hknown : ∀ v ∈ b.values.toList, a.Knows v) :
    (Body.ofBuffer b).Belongs a := by
  unfold ofBuffer
  split
  · exact belongs_empty
  · have hlen : b.values.toList.length = b.size := by
      rw [Array.length_toList, Buffer.size_values]
    rw [← hlen]
    refine (new_of_full (s := .owned b) trivial rfl hlen.symm fun i _ => ?_).belongs hknown
    rw [Array.getElem?_toList, Buffer.getElem?_values]
    rfl

namespace Body

variable {b x y : Body}

theorem keeps_add (h : a.Sound sharing held) (hx : x.Belongs a) (hy : y.Belongs a) :
    (x.add y).Keeps sharing held a fun b c => b.Belongs c :=
  Action.keeps_new h
    (fun v hv => (List.mem_append.mp hv).elim (hx.known v) (hy.known v))
    ((ends_add hx.fits hy.fits fun _ => .inr rfl).weaken fun _ _ hsum => hsum.2)

theorem keeps_mul (h : a.Sound sharing held) (hb : b.Belongs a) (count : Int64) :
    (b.mul count).Keeps sharing held a fun b c => b.Belongs c := by
  refine Action.keeps_new h (fun v hv => ?_)
    ((ends_mul hb.fits count (fun _ => .inr rfl) fun _ _ => .inr rfl).weaken fun _ _ hb => hb.2)
  obtain ⟨xs, hxs, hv⟩ := List.mem_flatten.mp hv
  exact hb.known v ((List.mem_replicate.mp hxs).2 ▸ hv)

theorem keeps_rotate (h : a.Sound sharing held) (hb : b.Belongs a) (count : Int64) :
    (b.rotate count).Keeps sharing held a fun b c => b.Belongs c :=
  Action.keeps_new h (fun v hv => hb.known v (mem_rotated hv))
    (ends_rotate hb.fits count fun _ => .inl Fault.fatal_outOfMemory)

theorem keeps_sort (h : a.Sound sharing held) (hb : b.Belongs a) :
    b.sort.Keeps sharing held a fun b c => b.Belongs c := by
  refine ((ends_sort hb.fits).and
    ((yields_sort b).within (R := Arena.Evolves sharing held) a)).mono ?_ ?_
  · rintro sorted c ⟨⟨ys, hnew, hperm⟩, hevolves⟩
    have hc := hevolves h
    exact ⟨hc, hnew.belongs fun v hv => hc.2.knows (hb.known v (hperm.mem_iff.mp hv))⟩
  · exact fun f c hf => hf.2.imp_right fun hevolves => hevolves h

theorem keeps_sortBy {compare : Sorting.Comparison} (h : a.Sound sharing held) (hb : b.Belongs a)
    (hcompare : ∀ x y c, a.Later held c → c.Sound sharing held → c.Knows x → c.Knows y →
      (compare x y).Keeps sharing held c fun _ _ => True) :
    (b.sortBy compare).Keeps sharing held a fun b c => b.Belongs c := by
  let I (c : Arena) : Prop := c.Sound sharing held ∧ a.Later held c
  have hbook : ∀ {c d : Arena}, I c → c.Booked d → I d := fun hc hbooked =>
    ⟨(hc.1.booked hbooked).1, hc.2.trans (hc.1.booked hbooked).2⟩
  have hcarries : Sorting.Carries compare (fun v => v ∈ b.toList) I fun f c => f.Fatal ∨ I c := by
    refine ⟨fun {x y c} hx hy hc => ?_, hbook⟩
    exact (hcompare x y c hc.2 hc.1 (hc.2.knows (hb.known x hx)) (hc.2.knows (hb.known y hy))).mono
      (fun _ _ hd => ⟨hd.1.1, hc.2.trans hd.1.2⟩)
      fun _ _ hd => hd.imp_right fun hd => ⟨hd.1, hc.2.trans hd.2⟩
  refine (ends_sortBy b hcarries (fun _ _ _ hf => .inl hf) ⟨h, .refl a⟩).mono ?_ fun _ _ hf => hf
  rintro sorted c ⟨⟨ys, hnew, hperm⟩, hc⟩
  exact ⟨hc, hnew.belongs fun v hv => hc.2.knows (hb.known v (hperm.mem_iff.mp hv))⟩

theorem keeps_filter {test : Value → Action Bool} (h : a.Sound sharing held) (hb : b.Belongs a)
    (htest : Edit.Behaves sharing held a (fun _ _ => True) test) :
    (b.filter test).Keeps sharing held a fun b c => b.Belongs c := by
  let I (c : Arena) : Prop := c.Sound sharing held ∧ a.Later held c
  have hbook : ∀ {c d : Arena}, I c → c.Booked d → I d := fun hc hbooked =>
    ⟨(hc.1.booked hbooked).1, hc.2.trans (hc.1.booked hbooked).2⟩
  have hact : ∀ v ∈ b.toList, ∀ c, I c →
      Ends (test v) c (fun _ d => I d) fun f d => f.Fatal ∨ I d := fun v hv c hc =>
    (htest v c hc.2 hc.1 (hc.2.knows (hb.known v hv))).mono
      (fun _ _ hd => ⟨hd.1.1, hc.2.trans hd.1.2⟩)
      fun _ _ hd => hd.imp_right fun hd => ⟨hd.1, hc.2.trans hd.2⟩
  refine (ends_filter hb.fits test not (by simp)).mono ?_ ?_
  · rintro part c ⟨calls, hcalls, hcalled, hnew⟩
    have hc := hcalled.keeps hbook (hcalls ▸ hact) ⟨h, .refl a⟩
    refine ⟨hc, hnew.belongs fun v hv => hc.2.knows (hb.known v ?_)⟩
    exact hcalls ▸ (keptBy_sublist not calls).subset hv
  · rintro f c (⟨calls, x, rest, hsplit, d, hcalled, hrun⟩ | ⟨rfl, -⟩)
    · rw [hsplit] at hact
      have hd := hcalled.keeps hbook (fun v hv => hact v (List.mem_append_left _ hv)) ⟨h, .refl a⟩
      exact (hact x (by simp) d hd).of_error hrun
    · exact .inl Fault.fatal_outOfMemory

theorem keeps_compact (h : a.Sound sharing held) (hb : b.Belongs a) :
    b.compact.Keeps sharing held a fun b c => b.Belongs c := by
  unfold compact
  split <;> exact keeps_filter h hb fun v c _ hc _ => ⟨⟨hc, .refl c⟩, trivial⟩

theorem keeps_reject {f : Block Bool} (h : a.Sound sharing held) (hb : b.Belongs a)
    (hf : Edit.Behaves sharing held a (fun _ _ => True) f.run) :
    (b.reject f).Keeps sharing held a fun b c => b.Belongs c :=
  keeps_filter h hb fun v c hlater hc hv => Action.Keeps.bind (hf v c hlater hc hv)
    fun _ d hd _ _ => ⟨⟨hd, .refl d⟩, trivial⟩

def Made (sharing : Prop) (held : List ArrayId) (a : Arena) (ys : List Value) (c : Arena) : Prop :=
  (c.Sound sharing held ∧ a.Later held c) ∧ ∀ y ∈ ys, c.Knows y

theorem Made.later {c d : Arena} {ys : List Value} (h : Made sharing held a ys c)
    (hd : d.Sound sharing held ∧ c.Later held d) : Made sharing held a ys d :=
  ⟨⟨hd.1, h.1.2.trans hd.2⟩, fun y hy => hd.2.knows (h.2 y hy)⟩

theorem Made.snoc {c : Arena} {ys : List Value} {y : Value} (h : Made sharing held a ys c)
    (hy : c.Knows y) : Made sharing held a (ys ++ [y]) c :=
  ⟨h.1, fun x hx => (List.mem_append.mp hx).elim (h.2 x) fun hx => List.mem_singleton.mp hx ▸ hy⟩

theorem Made.of_called {f : Block Value} (h : a.Sound sharing held) (hb : b.Belongs a)
    (hf : Edit.Behaves sharing held a (fun y c => c.Knows y) f.run) {calls : List (Value × Value)}
    {c : Arena} (hcalled : Called f.run a calls c) (hmem : ∀ x ∈ calls.map Prod.fst, x ∈ b.toList) :
    Made sharing held a (calls.map Prod.snd) c := by
  induction hcalled with
  | start => exact ⟨⟨h, .refl a⟩, List.forall_mem_nil _⟩
  | booked _ hbooked ih => exact (ih hmem).later ((ih hmem).1.1.booked hbooked)
  | @call calls x y c d _ hrun ih =>
      rw [List.map_append] at hmem ⊢
      obtain ⟨hbefore, hx⟩ := List.forall_mem_append.mp hmem
      have hc := ih hbefore
      have hknown := hc.1.2.knows (hb.known x (hx x List.mem_cons_self))
      have hd := (hf x c hc.1.2 hc.1.1 hknown).of_ok hrun
      exact (hc.later hd.1).snoc hd.2

theorem keeps_map {f : Block Value} (h : a.Sound sharing held) (hb : b.Belongs a)
    (hf : Edit.Behaves sharing held a (fun y c => c.Knows y) f.run) :
    (b.map f).Keeps sharing held a fun b c => b.Belongs c := by
  refine (ends_map hb.fits.loose f).mono ?_ ?_
  · rintro mapped c ⟨calls, hcalls, hcalled, hgathered⟩
    have hc := Made.of_called h hb hf hcalled (hcalls ▸ fun _ hx => hx)
    exact ⟨hc.1, hgathered.new.belongs hc.2⟩
  · rintro fault d (⟨calls, x, rest, hlist, c, hcalled, hrun⟩ | ⟨rfl, -⟩)
    · have hc := Made.of_called h hb hf hcalled fun y hy =>
        hlist ▸ List.mem_append_left _ hy
      have hx : x ∈ b.toList := hlist ▸ List.mem_append_right _ List.mem_cons_self
      have hd := (hf x c hc.1.2 hc.1.1 (hc.1.2.knows (hb.known x hx))).of_error hrun
      exact hd.imp_right fun hd => ⟨hd.1, hc.1.2.trans hd.2⟩
    · exact .inl Fault.fatal_outOfMemory

theorem keeps_zip {others : List Body} (h : a.Sound sharing held) (hb : b.Belongs a)
    (hothers : ∀ other ∈ others, other.Belongs a) :
    (b.zip others).Keeps sharing held a fun b c => b.Belongs c := by
  have hmade : Made sharing held a [] a := ⟨⟨h, .refl a⟩, List.forall_mem_nil _⟩
  refine (ends_zip (J := Made sharing held a) (fun hc hbooked => hc.later (hc.1.1.booked hbooked))
    hb.fits.loose others hmade fun v hv i ys row c hc hnew => ?_).mono ?_ ?_
  · have hrow : row.Belongs c := by
      refine hnew.belongs fun x hx => hc.1.2.knows ?_
      rcases List.mem_cons.mp hx with rfl | hx
      · exact hb.known x hv
      · obtain ⟨other, hother, rfl⟩ := List.mem_map.mp hx
        exact (hothers other hother).knows_getD i
    refine (hc.later (Arena.withObject_evolves hrow.fits hrow.known hrow.backs hc.1.1)).snoc ?_
    exact Arena.knows_withObject c row
  · rintro zipped c ⟨-, ys, -, -, -, hgathered, hc⟩
    exact ⟨hc.1, hgathered.new.belongs hc.2⟩
  · rintro _ c ⟨rfl, -⟩
    exact .inl Fault.fatal_outOfMemory

end Body

/-! ## Texts -/

namespace Json

def Grows (a : Arena) (b : Builder) : Prop :=
  ∃ xs, b.Holds xs ∧ ∀ v ∈ xs, a.Knows v

theorem Grows.later {b : Builder} {c : Arena} (h : Grows a b) (hlater : a.Later held c) :
    Grows c b := by
  obtain ⟨xs, hholds, hknown⟩ := h
  exact ⟨xs, hholds, fun v hv => hlater.knows (hknown v hv)⟩

def Built.Known (a : Arena) : Built → Prop
  | scalar v => a.Knows v
  | array b => ∃ xs, b.New xs ∧ ∀ v ∈ xs, a.Knows v

theorem Built.Known.later {t : Built} {c : Arena} (h : t.Known a) (hlater : a.Later held c) :
    t.Known c := by
  cases t with
  | scalar v => exact hlater.knows h
  | array b =>
      obtain ⟨xs, hnew, hknown⟩ := h
      exact ⟨xs, hnew, fun v hv => hlater.knows (hknown v hv)⟩

theorem keeps_push {b : Builder} {v : Value} (h : a.Sound sharing held) (hb : Grows a b)
    (hv : a.Knows v) : (b.push v).Keeps sharing held a fun b c => Grows c b := by
  obtain ⟨xs, hholds, hknown⟩ := hb
  refine (Builder.ends_push hholds v fun _ _ hf => .inl hf).mono ?_ fun _ _ hf => hf
  rintro b' c ⟨hbooked, hholds'⟩
  have hc := h.booked hbooked
  refine ⟨hc, _, hholds', fun x hx => hc.2.knows ?_⟩
  exact (List.mem_append.mp hx).elim (hknown x) fun hx => List.mem_singleton.mp hx ▸ hv

theorem keeps_finish {b : Builder} (h : a.Sound sharing held) (hb : Grows a b) :
    b.finish.Keeps sharing held a fun b c => (Built.array b).Known c := by
  obtain ⟨xs, hholds, hknown⟩ := hb
  refine (Builder.ends_finish hholds).weaken ?_
  rintro body c ⟨rfl, hnew⟩
  exact ⟨⟨h, .refl c⟩, xs, hnew, hknown⟩

theorem keeps_newObject {b : Body} (h : a.Sound sharing held) (hb : (Built.array b).Known a) :
    (Action.newObject b).Keeps sharing held a fun id c => c.Knows (.array id) := by
  obtain ⟨xs, hnew, hknown⟩ := hb
  have hb := hnew.belongs hknown
  exact ⟨Arena.withObject_evolves hb.fits hb.known hb.backs h, Arena.knows_withObject a b⟩

theorem keeps_scalar? (h : a.Sound sharing held) (e : Event) :
    e.scalar?.Keeps sharing held a fun found c => ∀ v, found = some v → c.Knows v := by
  have hnone {v : Value} {c : Arena} (hv : v.arrayId? = none) : c.Knows v :=
    fun id hid => by simp [hv] at hid
  cases e with
  | string text =>
      refine ⟨Arena.noted_evolves rfl rfl (Nat.le_refl _) h, fun v hv => ?_⟩
      cases hv
      exact hnone rfl
  | opening => exact ⟨⟨h, .refl a⟩, nofun⟩
  | closing => exact ⟨⟨h, .refl a⟩, nofun⟩
  | _ =>
      refine ⟨⟨h, .refl a⟩, fun v hv => ?_⟩
      cases hv
      exact hnone rfl

theorem keeps_build (es : List Event) : ∀ {a : Arena} {builders : List Builder}
    {top : Option Built}, a.Sound sharing held → (∀ b ∈ builders, Grows a b) →
      (∀ t, top = some t → t.Known a) →
      Action.Keeps sharing held (build es builders top) a
        fun top c => ∀ t, top = some t → t.Known c := by
  induction es with
  | nil => exact fun h _ htop => ⟨⟨h, .refl _⟩, htop⟩
  | cons e es ih =>
      intro a builders top h hbuilders htop
      have htop' {c : Arena} (hlater : a.Later held c) : ∀ t, top = some t → t.Known c :=
        fun t ht => (htop t ht).later hlater
      unfold build
      split
      · -- an array begins
        refine ih h (fun b hb => ?_) htop
        rcases List.mem_cons.mp hb with rfl | hb
        · exact ⟨[], Builder.holds_new 0, nofun⟩
        · exact hbuilders b hb
      · exact .inl Fault.fatal_broken
      · -- the outermost array ends
        refine Action.Keeps.bind (keeps_finish h (hbuilders _ List.mem_cons_self)) ?_
        intro body c hc _ hbody
        exact ih hc nofun fun t ht => Option.some.inj ht ▸ hbody
      · -- an array ends, and is put into the one around it
        rename_i b outer rest
        refine Action.Keeps.bind (keeps_finish h (hbuilders b List.mem_cons_self)) ?_
        intro body c hc hlater hbody
        refine Action.Keeps.bind (keeps_newObject hc hbody) fun id d hd hlater' hid => ?_
        have hlater₂ := hlater.trans hlater'
        have houter := hbuilders outer (List.mem_cons_of_mem b List.mem_cons_self)
        refine Action.Keeps.bind (keeps_push hd (houter.later hlater₂) hid) ?_
        intro outer' f hf hlater'' houter'
        have hlater₃ := hlater₂.trans hlater''
        refine ih hf (fun x hx => ?_) (htop' hlater₃)
        rcases List.mem_cons.mp hx with rfl | hx
        · exact houter'
        · exact (hbuilders x (List.mem_cons_of_mem b (List.mem_cons_of_mem outer hx))).later hlater₃
      · -- a value that is no array
        refine Action.Keeps.bind (keeps_scalar? h _) fun found c hc hlater hfound => ?_
        split
        · exact ih hc nofun fun t ht => Option.some.inj ht ▸ hfound _ rfl
        · refine Action.Keeps.bind (keeps_push hc ((hbuilders _ List.mem_cons_self).later hlater)
            (hfound _ rfl)) fun b' d hd hlater' hb' => ?_
          have hlater₂ := hlater.trans hlater'
          refine ih hd (fun x hx => ?_) (htop' hlater₂)
          rcases List.mem_cons.mp hx with rfl | hx
          · exact hb'
          · exact (hbuilders x (List.mem_cons_of_mem _ hx)).later hlater₂
        · exact .inl Fault.fatal_broken

end Json

namespace Action

theorem keeps_readArray (h : a.Sound sharing held) (text : String) :
    (readArray text).Keeps sharing held a
      fun answer c => ∀ b, answer = .ok b → b.Belongs c := by
  refine Keeps.bind (Json.keeps_build _ h nofun nofun) fun built c hc _ hbuilt => ?_
  split
  · exact ⟨⟨hc, .refl c⟩, nofun⟩
  · refine ⟨⟨hc, .refl c⟩, fun b hb => ?_⟩
    cases hb
    obtain ⟨xs, hnew, hknown⟩ := hbuilt _ rfl
    exact hnew.belongs hknown
  · exact .inl Fault.fatal_broken

theorem keeps_readValue (h : a.Sound sharing held) (text : String) :
    (readValue text).Keeps sharing held a fun _ _ => True := by
  refine Keeps.bind (Json.keeps_build _ h nofun nofun) fun built c hc _ hbuilt => ?_
  split
  · exact ⟨⟨hc, .refl c⟩, trivial⟩
  · exact ⟨⟨hc, .refl c⟩, trivial⟩
  · exact Keeps.bind (Json.keeps_newObject hc (hbuilt _ rfl))
      fun _ d hd _ _ => ⟨⟨hd, .refl d⟩, trivial⟩
  · exact .inl Fault.fatal_broken

end Action

end AdaptiveArray
