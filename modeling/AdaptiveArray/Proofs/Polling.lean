import AdaptiveArray.Proofs.Combining

/-!
# Polls while copying

A bulk loop polls before each step whose number is a multiple of the stride, but not before its
first one.  A repetition is a loop of such loops: its steps are counted from nothing again in each
round, and the rounds are counted apart from them.
-/

namespace AdaptiveArray

namespace Options

variable (o : Options)

theorem pollsIn_succ (n : Nat) : o.pollsIn (n + 1) = o.pollsIn n + if o.isDue n then 1 else 0 := by
  rw [pollsIn, Nat.fold_succ]
  split <;> rfl

/-- Of the steps `0, …, n - 1` those are due that a whole number of strides has led up to. -/
theorem pollsIn_eq {o : Options} (h : o.safepointStride ≠ 0) (n : Nat) :
    o.pollsIn n = (n - 1) / o.safepointStride := by
  induction n with
  | zero => exact (Nat.zero_div _).symm
  | succ n ih =>
      rw [pollsIn_succ, ih, Nat.add_sub_cancel]
      cases n with
      | zero => simp [isDue]
      | succ n =>
          rw [Nat.add_sub_cancel, Nat.succ_div]
          simp [isDue, h, Nat.dvd_iff_mod_eq_zero]

end Options

theorem Kind.forCopy_of_element? {k : Kind} {e : Element} (h : k.element? = some e) :
    k.forCopy = .owned e := by
  cases k with
  | empty => cases h
  | owned d => exact congrArg Kind.owned (Option.some.inj h)
  | view d => exact congrArg Kind.owned (Option.some.inj h)
  | native => exact congrArg Kind.owned (Option.some.inj h)

/-- From the first arena to the second the hook has run `n` times, under the same options. -/
structure Arena.Polled (a b : Arena) (n : Nat) : Prop where
  settings : b.settings = a.settings
  polls : b.polls = a.polls + n

namespace Arena.Polled

variable {a b c : Arena} {m n : Nat}

theorem refl (a : Arena) : a.Polled a 0 :=
  ⟨rfl, rfl⟩

theorem withSettings (a : Arena) : a.Polled a.withSettings 0 :=
  ⟨rfl, rfl⟩

theorem with_polls (h : a.Polled b 0) : a.Polled { b with polls := b.polls + n } n :=
  ⟨h.settings, congrArg (· + n) h.polls⟩

theorem trans (h : a.Polled b m) (h' : b.Polled c n) : a.Polled c (m + n) :=
  ⟨h'.settings.trans h.settings, by rw [h'.polls, h.polls, Nat.add_assoc]⟩

end Arena.Polled

namespace Action

variable {a : Arena} {early : Fault → Arena → Prop}

theorem ends_pollAt_polled (i : Nat) :
    Ends (pollAt i) a (fun _ b => a.Polled b (if a.settings.isDue i then 1 else 0)) early := by
  unfold pollAt
  simp only [ends_bind, ends_options]
  split
  · exact (Arena.Polled.withSettings a).with_polls
  · exact Arena.Polled.withSettings a

theorem ends_pollForCopy_polled (n : Nat) :
    Ends (pollForCopy .object n) a (fun _ b => a.Polled b (a.settings.pollsIn n)) early := by
  unfold pollForCopy
  simp only [ends_bind, ends_options, if_true, ends_modify]
  exact (Arena.Polled.withSettings a).with_polls

theorem ends_allocate_object (n : Nat) :
    Ends (allocate (.owned .object) n) a (fun s b => s.kind = .owned .object ∧ b = a)
      fun _ _ => True := by
  refine Ends.bind (ends_newBuffer .object n fun _ => trivial) ?_
  rintro _ b ⟨rfl, rfl⟩
  exact ⟨congrArg Kind.owned (Buffer.element_zeros .object n), rfl⟩

theorem ends_copyTo_polled (src : Store) (srcStart : Nat) {dst : Store} (dstStart len : Nat)
    (hkind : dst.kind = .owned .object) :
    Ends (copyTo src srcStart dst dstStart len) a
      (fun d b => d.kind = .owned .object ∧ a.Polled b (a.settings.pollsIn len))
      fun _ _ => True := by
  have helement : dst.buffer.element = .object := by
    cases dst with
    | owned buffer => exact Kind.owned.inj hkind
    | _ => cases hkind
  unfold copyTo
  rw [ends_bind, ends_ensure]
  split
  case isFalse => trivial
  rw [ends_bind, ends_ensure]
  split
  case isFalse => trivial
  split
  case isTrue hlen => exact ⟨hkind, hlen ▸ .refl a⟩
  case isFalse =>
      dsimp only
      rw [helement]
      cases (src.slice srcStart (srcStart + len)).convert? .object with
      | none => trivial
      | some part =>
          rw [ends_bind, ends_demand_some, ends_bind]
          refine (ends_pollForCopy_polled len).weaken fun _ b hpolled => ?_
          exact ⟨(Store.kind_overwrite dst _ part).trans hkind, hpolled⟩

end Action

namespace Body

variable {a : Arena} {b : Body}

/-- After `i` rounds the elements have been polled for in each of them, and the rounds once. -/
theorem ends_repeatInto_polled (b : Body) (left : Nat) : ∀ {c : Arena} {i : Nat} {dst : Store},
    dst.kind = .owned .object →
    a.Polled c (i * a.settings.pollsIn b.size + a.settings.pollsIn i) →
    Ends (b.repeatInto left i dst) c
      (fun _ d => a.Polled d
        ((i + left) * a.settings.pollsIn b.size + a.settings.pollsIn (i + left)))
      fun _ _ => True := by
  induction left with
  | zero => exact fun _ hpolled => hpolled
  | succ left ih =>
      intro c i dst hkind hpolled
      unfold repeatInto
      refine Ends.bind (Action.ends_pollAt_polled i) fun _ c₁ hround => ?_
      refine Ends.bind (Action.ends_copyTo_polled b.store 0 (i * b.size) b.size hkind) ?_
      rintro d c₂ ⟨hkind', hcopied⟩
      rw [hround.settings, hpolled.settings] at hcopied
      rw [hpolled.settings] at hround
      have hnext : a.Polled c₂
          ((i + 1) * a.settings.pollsIn b.size + a.settings.pollsIn (i + 1)) := by
        have hsum : i * a.settings.pollsIn b.size + a.settings.pollsIn i +
            (if a.settings.isDue i then 1 else 0) + a.settings.pollsIn b.size =
            (i + 1) * a.settings.pollsIn b.size + a.settings.pollsIn (i + 1) := by
          rw [Options.pollsIn_succ, Nat.succ_mul]
          omega
        exact hsum ▸ (hpolled.trans hround).trans hcopied
      rw [show i + (left + 1) = i + 1 + left by omega]
      exact ih hkind' hnext

theorem ends_mul_polled (hkind : b.kind.forCopy = .owned .object) (count : Int64) :
    Ends (b.mul count) a (fun product c => product.size ≠ 0 →
      a.Polled c (count.toInt.toNat * a.settings.pollsIn b.size +
        a.settings.pollsIn count.toInt.toNat)) fun _ _ => True := by
  unfold mul
  dsimp only
  split
  case isTrue => trivial
  split
  case isTrue => trivial
  split
  case isTrue => exact fun hsome => absurd rfl hsome
  rw [hkind]
  refine Ends.bind (Action.ends_allocate_object _) ?_
  rintro fresh a ⟨hfresh, rfl⟩
  have hstart : a.Polled a (0 * a.settings.pollsIn b.size + a.settings.pollsIn 0) := by
    rw [Nat.zero_mul]
    exact .refl a
  refine Ends.bind (ends_repeatInto_polled b count.toInt.toNat hfresh hstart) ?_
  intro s c hpolled
  rw [Nat.zero_add] at hpolled
  cases ofStore? s (count.toInt.toNat * b.size) with
  | none => trivial
  | some product => exact fun _ => hpolled

end Body

/-- Counting in rounds keeps up with counting in one go just if each round ends on a due step, or
all the rounds fit in a stride. -/
theorem Options.rounds_keep_up {stride size times : Nat} (hstride : stride ≠ 0) (hsize : size ≠ 0)
    (htimes : times ≠ 0) :
    (times * size - 1) / stride ≤ times * ((size - 1) / stride) + (times - 1) / stride ↔
      (size - 1) % stride = 0 ∨ times * ((size - 1) % stride + 1) ≤ stride := by
  have hsplit : times * size - 1 =
      stride * (times * ((size - 1) / stride)) + (times * ((size - 1) % stride) + (times - 1)) := by
    have hround : size = stride * ((size - 1) / stride) + (size - 1) % stride + 1 := by
      rw [Nat.div_add_mod]
      omega
    calc times * size - 1
        = times * (stride * ((size - 1) / stride) + (size - 1) % stride + 1) - 1 := by rw [← hround]
      _ = stride * (times * ((size - 1) / stride)) + times * ((size - 1) % stride) + times - 1 := by
        rw [Nat.mul_add, Nat.mul_add, Nat.mul_left_comm, Nat.mul_one]
      _ = _ := by omega
  rw [hsplit, Nat.mul_add_div (Nat.pos_of_ne_zero hstride), Nat.add_le_add_iff_left, Nat.mul_succ]
  generalize (size - 1) % stride = rest
  constructor
  · intro hkept
    by_cases hrest : rest = 0
    · exact .inl hrest
    · have hmore : times ≤ times * rest := Nat.le_mul_of_pos_right times (Nat.pos_of_ne_zero hrest)
      rw [← Nat.lt_succ_iff, Nat.div_lt_iff_lt_mul (Nat.pos_of_ne_zero hstride),
        Nat.succ_mul] at hkept
      have hwhole : (times - 1) / stride * stride ≤ times - 1 := Nat.div_mul_le_self _ _
      rw [Nat.div_eq_of_lt (by omega)] at hkept
      omega
  · rintro (rfl | hfew)
    · exact Nat.le_of_eq (by rw [Nat.mul_zero, Nat.zero_add])
    · rw [Nat.div_eq_of_lt (by omega)]
      exact Nat.zero_le _

namespace Body

/-- How often a product of values polls, and when that is once a stride of its elements. -/
theorem mul_polls {a c : Arena} {b product : Body} {count : Int64} (hfits : b.Fits False)
    (helement : b.kind.element? = some .object) (hstride : a.settings.safepointStride ≠ 0)
    (hrun : b.mul count a = .ok product c) (hsome : product.size ≠ 0) :
    let stride := a.settings.safepointStride
    let times := count.toInt.toNat
    c.polls = a.polls + (times * ((b.size - 1) / stride) + (times - 1) / stride) ∧
    (a.polls + (product.size - 1) / stride ≤ c.polls ↔
      (b.size - 1) % stride = 0 ∨ times * ((b.size - 1) % stride + 1) ≤ stride) := by
  intro stride times
  have hpolls :=
    ((ends_mul_polled (Kind.forCopy_of_element? helement) count).of_ok hrun hsome).polls
  rw [Options.pollsIn_eq hstride, Options.pollsIn_eq hstride] at hpolls
  have hproduct : Ends (b.mul count) a
      (fun product _ => product.New (List.replicate count.toInt.toNat b.toList).flatten)
      fun _ _ => True :=
    (ends_mul hfits count (fun _ => trivial) fun _ _ => trivial).weaken fun _ _ h => h.2.2
  have hnew := hproduct.of_ok hrun
  have hsize : product.size = times * b.size := by
    rw [← length_toList hnew.shows.fits, hnew.shows.toList, length_repeated hfits]
  refine ⟨hpolls, ?_⟩
  rw [hpolls, Nat.add_le_add_iff_left, hsize]
  exact Options.rounds_keep_up hstride (fun hzero => hsome (by rw [hsize, hzero, Nat.mul_zero]))
    fun hzero => hsome (by rw [hsize, hzero, Nat.zero_mul])

/-- A window on three of four strings, four times over, with a poll due for every second element:
each round ends on a due one. -/
theorem mul_polls_window :
    let strings := #[.string 0 "w", .string 1 "x", .string 2 "y", .string 3 "z"]
    let b : Body := { store := .view ⟨⟨0, .object strings⟩, 1, 3⟩, size := 3 }
    let a : Arena := { options? := some { safepointStride := 2 } }
    ∃ product c, b.mul 4 a = .ok product c ∧ product.size = 12 ∧ c.polls = 5 ∧
      a.polls + (12 - 1) / 2 ≤ c.polls := by
  intro strings b a
  have hfits : b.Fits False := .intro_view (by decide) (by change 1 + 3 ≤ 4; decide) rfl
  have hruns : ∃ product c, b.mul 4 a = .ok product c ∧ product.size = 12 := by
    subst b a strings
    exact ⟨_, _, rfl, rfl⟩
  obtain ⟨product, c, hrun, hsize⟩ := hruns
  obtain ⟨hpolls, hkept⟩ := mul_polls hfits rfl (by decide) hrun (by omega)
  have hkept := hkept.mpr (.inl (by decide))
  rw [hsize] at hkept
  exact ⟨product, c, hrun, hsize, hpolls.trans (by decide), hkept⟩

/-- Three strings four times over are twelve elements, and with a poll due for every fourth one
there is none. -/
theorem mul_skips_polls :
    let strings := #[.string 0 "x", .string 1 "y", .string 2 "z"]
    let b : Body := { store := .owned (.object strings), size := 3 }
    let a : Arena := { options? := some { safepointStride := 4 } }
    ∃ product c, b.mul 4 a = .ok product c ∧ product.size = 12 ∧
      ¬a.polls + (12 - 1) / 4 ≤ c.polls :=
  ⟨_, _, rfl, rfl, by decide⟩

end Body

end AdaptiveArray
