import AdaptiveArray.Mutation
import AdaptiveArray.Proofs.Sparing

/-!
# Operations on the objects of a sound arena

An operation takes the write lock of an array unless it is held already, takes the body
out of the arena, edits it, puts it back and releases the lock.  What the edit keeps, the
operation keeps.
-/

namespace AdaptiveArray

variable {sharing : Prop} {held : List ArrayId} {α β : Type} {a : Arena} {id : ArrayId}

/-! ## Taking a body out and putting it back -/

theorem Arena.backs_opened {o : ArrayObject} (ho : a.object? id = some o) {k : Backing} :
    (a.opened id o.body).Backs k ↔ a.Backs k := by
  constructor
  · rintro (hk | hk)
    · exact (backs_setBody hk).resolve_right nofun
    · exact backs_of_object? ho hk
  · intro hk
    rcases backs_iff.mp hk with ⟨j, o', ho', hk⟩ | hbare
    · by_cases heq : j = id
      · subst heq
        rw [ho] at ho'
        cases ho'
        exact .inr hk
      · have hopened : (a.opened id o.body).arena.object? j = some o' := by
          rw [opened, object?_setBody, if_neg heq, ho']
        exact .inl (backs_of_object? hopened hk)
    · exact .inl (backs_iff.mpr (.inr hbare))

theorem Arena.Sound.opened {o : ArrayObject} (h : a.Sound sharing held)
    (ho : a.object? id = some o) (hlock : o.lock ≠ .free) :
    (a.opened id o.body).Kept sharing held :=
  ⟨h.takeBody ho hlock, h.suits ho⟩

theorem Workspace.Kept.closed {w : Workspace} {o : ArrayObject} (h : w.Kept sharing held)
    (hid : id ∉ held) (ho : a.object? id = some o)
    (hlater : Workspace.Later held (a.opened id o.body) w) :
    (w.arena.setBody id w.body).Sound sharing held ∧
      a.Later held (w.arena.setBody id w.body) := by
  have howner : w.owner = id := hlater.owner
  obtain ⟨o₁, ho₁, hlock⟩ := h.arena.locked w.owner List.mem_cons_self
  rw [howner] at ho₁
  have hsuits := h.body
  rw [howner] at hsuits
  have hsound :=
    h.arena.setBody (fun _ o' ho' => Option.some.inj (ho₁.symm.trans ho') ▸ hlock) hsuits
  have hopen : ∀ j, ((a.opened id o.body).arena.object? j).isSome = (a.object? j).isSome :=
    Arena.isSome_setBody a id .empty
  refine ⟨hsound.mono fun j hj => List.mem_cons_of_mem _ hj, fun j hj => ?_, fun j hj => ?_,
    hlater.arena.nextBacking, fun k hk => ?_, fun j hj o' ho' => ?_⟩
  · rw [Arena.isSome_setBody]
    exact hlater.arena.alive j (by rwa [hopen])
  · rw [Arena.isShared_setBody]
    exact hlater.arena.shared j (by rwa [Arena.opened, Arena.isShared_setBody])
  · refine Or.imp_left (Arena.backs_opened ho).mp ?_
    rcases Arena.backs_setBody hk with hk | hk
    · exact (hlater.arena.traced k hk).imp_left .inl
    · exact hlater.traced k hk
  · have hne : j ≠ id := fun heq => hid (heq ▸ hj)
    obtain ⟨o'', ho'', hg⟩ := hlater.arena.held j (List.mem_cons_of_mem _ hj) o' (by
      rw [Arena.opened, Arena.object?_setBody, if_neg hne, ho'])
    exact ⟨o'', by rw [Arena.object?_setBody, if_neg hne, ho''], hg⟩

theorem Workspace.Kept.backs_closed {w : Workspace} (h : w.Kept sharing held) {k : Backing}
    (hk : w.body.store.backing? = some k) : (w.arena.setBody w.owner w.body).Backs k := by
  obtain ⟨o, ho, -⟩ := h.arena.locked w.owner List.mem_cons_self
  have hclosed : (w.arena.setBody w.owner w.body).object? w.owner =
      some { o with body := w.body } := by
    rw [Arena.object?_setBody, if_pos rfl, ho]
    rfl
  exact Arena.backs_of_object? hclosed hk

namespace Action

theorem Keeps.bind {act : Action α} {k : α → Action β} {mid : α → Arena → Prop}
    {post : β → Arena → Prop} (h : act.Keeps sharing held a mid)
    (hk : ∀ x b, b.Sound sharing held → a.Later held b → mid x b →
      (k x).Keeps sharing held b post) : Action.Keeps sharing held (act >>= k) a post :=
  Ends.bind h fun x b hb => (hk x b hb.1.1 hb.1.2 hb.2).mono
    (fun _ _ hc => ⟨⟨hc.1.1, hb.1.2.trans hc.1.2⟩, hc.2⟩)
    fun _ _ hc => hc.imp_right fun hc => ⟨hc.1, hb.1.2.trans hc.2⟩

theorem Keeps.weaken {act : Action α} {post post' : α → Arena → Prop}
    (h : act.Keeps sharing held a post) (hpost : ∀ x b, post x b → post' x b) :
    act.Keeps sharing held a post' :=
  Ends.weaken h fun _ _ hb => ⟨hb.1, hpost _ _ hb.2⟩

/-! ## Under the lock -/

theorem keeps_editBody {e : Edit α} {post : α → Workspace → Prop} {o : ArrayObject}
    (hid : id ∉ held) (ho : a.object? id = some o)
    (he : Edit.Keeps sharing held e (a.opened id o.body) post) :
    Action.Keeps sharing held (editBody id e) a fun x b => ∃ w : Workspace,
      (w.Kept sharing held ∧ w.owner = id) ∧ post x w ∧ b = w.arena.setBody id w.body := by
  have hbody : a.body? id = some o.body := by
    rw [Arena.body?, ho]
    rfl
  refine (ends_editBody hbody).mpr (he.mono (fun x w hw => ?_) fun f w hf => ?_)
  · exact ⟨hw.1.1.closed hid ho hw.1.2, w, ⟨hw.1.1, hw.1.2.owner⟩, hw.2, rfl⟩
  · exact hf.imp_right fun hw => hw.1.closed hid ho hw.2

def Lasting (post : α → Arena → Prop) : Prop :=
  ∀ x b c, (∀ v, b.Knows v → c.Knows v) → (∀ k, b.Backs k → c.Backs k) → post x b → post x c

theorem keeps_closing {act : Action α} {post : α → Arena → Prop} (hid : id ∉ held)
    (hlasting : Lasting post) (hact : act.Keeps sharing held a post) :
    Action.Keeps sharing held (closing act fun b => b.unlock id) a post := by
  have hunlock : ∀ b : Arena, b.Sound sharing held ∧ a.Later held b →
      (b.unlock id).Sound sharing held ∧ a.Later held (b.unlock id) := by
    intro b hb
    have hb' := Arena.unlock_evolves hid hb.1
    exact ⟨hb'.1, hb.2.trans hb'.2⟩
  refine ends_closing.mpr (hact.mono (fun x b hb => ?_) fun f b hf => hf.imp_right (hunlock b))
  refine ⟨hunlock b hb.1, hlasting x b _ (fun v hv => ?_) (fun k hk => ?_) hb.2⟩
  · exact (Arena.unlock_evolves hid hb.1.1).2.knows hv
  · exact Arena.backs_unlock.mpr hk

theorem keeps_holding {act : Action α} {post : α → Arena → Prop} (h : a.Sound sharing held)
    (hid : id ∉ held) (hlasting : Lasting post)
    (hact : ∀ b o, b.Sound sharing held → a.Relabelled id b → b.object? id = some o →
      o.lock ≠ .free → act.Keeps sharing held b post) :
    Action.Keeps sharing held (holding id act) a post := by
  unfold holding Action.Keeps
  rw [ends_bind, ends_get]
  cases ho : a.object? id with
  | none =>
      have hlock : a.lockOf id = none := by rw [Arena.lockOf, ho]; rfl
      rw [hlock]
      exact .inl Fault.fatal_broken
  | some o =>
      have hlock : a.lockOf id = some o.lock := by rw [Arena.lockOf, ho]; rfl
      rw [hlock]
      cases hheld : o.lock with
      | free =>
          rw [hheld] at hlock
          have hlocked : (a.setLock id .mine).Sound sharing held ∧ _ :=
            Arena.lock_evolves hlock hid h
          rw [ends_bind, ends_modify]
          refine (keeps_closing hid hlasting (hact (a.setLock id .mine) { o with lock := .mine }
            hlocked.1 (Arena.relabelled_setLock a id .mine) ?_ (by simp))).mono ?_ ?_
          · rw [Arena.object?_setLock, if_pos rfl, ho]
            rfl
          · exact fun _ _ hb => ⟨⟨hb.1.1, hlocked.2.trans hb.1.2⟩, hb.2⟩
          · exact fun _ _ hb => hb.imp_right fun hb => ⟨hb.1, hlocked.2.trans hb.2⟩
      | mine => exact hact a o h (.refl a id) ho (by rw [hheld]; decide)
      | elsewhere => exact .inl Fault.fatal_broken

theorem keeps_locked {e : Edit α} {post : α → Workspace → Prop} {post' : α → Arena → Prop}
    {o : ArrayObject} (h : a.Sound sharing held) (hid : id ∉ held) (ho : a.object? id = some o)
    (hlock : o.lock ≠ .free)
    (he : ∀ w : Workspace, w.Kept sharing held → w.owner = id → (∀ v, a.Knows v → w.arena.Knows v) →
      (∀ k, a.Backs k → w.Backs k) → Edit.Keeps sharing held e w post)
    (hpost : ∀ x (w : Workspace), w.Kept sharing held → post x w →
      post' x (w.arena.setBody w.owner w.body)) :
    Action.Keeps sharing held (editBody id e) a post' := by
  refine (keeps_editBody hid ho (he _ (h.opened ho hlock) rfl (fun v hv => ?_)
    fun k hk => ?_)).weaken ?_
  · exact Arena.knows_setBody.mpr hv
  · exact (Arena.backs_opened ho).mpr hk
  · rintro x c ⟨w, ⟨hw, rfl⟩, hx, rfl⟩
    exact hpost x w hw hx

theorem keeps_edit {e : Edit α} {post : α → Workspace → Prop} {post' : α → Arena → Prop}
    (h : a.Sound sharing held) (hid : id ∉ held) (hlasting : Lasting post')
    (he : ∀ w : Workspace, w.Kept sharing held → w.owner = id → (∀ v, a.Knows v → w.arena.Knows v) →
      (∀ k, a.Backs k → w.Backs k) → Edit.Keeps sharing held e w post)
    (hpost : ∀ x (w : Workspace), w.Kept sharing held → post x w →
      post' x (w.arena.setBody w.owner w.body)) :
    Action.Keeps sharing held (edit id e) a post' := by
  refine keeps_holding h hid hlasting fun b o hb hrelabelled ho hlock => ?_
  refine keeps_locked hb hid ho hlock (fun w hw howner hknows hbacks => ?_) hpost
  exact he w hw howner (fun v hv => hknows v fun j hj => hrelabelled.isSome (hv j hj))
    fun k hk => hbacks k (hrelabelled.backs.mpr hk)

end Action

/-! ## Mutations -/

def outcome (answer : α → Option Value) :
    EStateM.Result Fault Arena α → Option (Option Value × Arena)
  | .ok x a => some (answer x, a)
  | .error (.raised _) a => some (none, a)
  | .error _ _ => none

namespace Mutation

def values : Mutation → List Value
  | push v | set _ v | fill v | delete v | deleteOr v _ => [v]
  | pushAll vs | insert _ vs | unshift vs => vs
  | restart _ fill? => fill?.toList
  | _ => []

def operands : Mutation → List Body
  | concat others => others
  | replace other => [other]
  | _ => []

def donor? : Mutation → Option ArrayId
  | steal other => some other
  | _ => none

def call : Mutation → Value → Arena → Option (Option Value × Arena)
  | map f, v, a | restartWith _ f, v, a => outcome some (f.run v a)
  | reject f, v, a | keepIf f, v, a => outcome (fun _ => none) (f.run v a)
  | deleteOr _ missing, v, a => outcome (fun _ => none) (missing v a)
  | _, _, _ => none

def Behaves (sharing : Prop) (held : List ArrayId) (a : Arena) (m : Mutation) : Prop :=
  ∀ v b answer? c, a.Later held b → b.Sound sharing held → b.Knows v →
    m.call v b = some (answer?, c) →
      (c.Sound sharing held ∧ b.Later held c) ∧ ∀ y, answer? = some y → c.Knows y

end Mutation

theorem keeps_of_outcome {act : Action α} (answer : α → Option Value)
    (h : ∀ answer? b, outcome answer (act a) = some (answer?, b) →
      (b.Sound sharing held ∧ a.Later held b) ∧ ∀ y, answer? = some y → b.Knows y) :
    act.Keeps sharing held a fun x b => ∀ y, answer x = some y → b.Knows y := by
  refine Ends.intro (fun x b hrun => h (answer x) b (by rw [hrun]; rfl)) fun f b hrun => ?_
  cases f with
  | raised e => exact .inr (h none b (by rw [hrun]; rfl)).1
  | outOfMemory => exact .inl Fault.fatal_outOfMemory
  | broken => exact .inl Fault.fatal_broken

def Reply.Spared (w : Workspace) : Reply → Prop
  | body b => Edit.Spares b w
  | store s => ∀ k, s.backing? = some k → w.body.store.backing? = some k
  | _ => True

namespace Mutation

open Edit

theorem keeps_edit {w : Workspace} (m : Mutation) (h : w.Kept sharing held)
    (hvalues : ∀ v ∈ m.values, w.arena.Knows v)
    (hoperands : ∀ b ∈ m.operands, b.Lends w.arena ∧ ∀ k, b.store.backing? = some k → w.Backs k)
    (hdonor : ∀ other, m.donor? = some other → other ∉ w.owner :: held)
    (hblock : m.Behaves sharing (w.owner :: held) w.arena) :
    Edit.Keeps sharing held m.edit w fun reply w' => reply.Spared w' := by
  have hnothing {e : Edit Unit} (he : Edit.Keeps sharing held e w fun _ _ => True) :
      Edit.Keeps sharing held (do e; return Reply.nothing) w fun reply w' => reply.Spared w' :=
    he.bind fun _ _ h' _ _ => keeps_pure h' trivial
  have hvalue {e : Edit Value} (he : Edit.Keeps sharing held e w fun _ _ => True) :
      Edit.Keeps sharing held (do return Reply.value (← e)) w fun reply w' => reply.Spared w' :=
    he.bind fun _ _ h' _ _ => keeps_pure h' trivial
  have hflag {e : Edit Bool} (he : Edit.Keeps sharing held e w fun _ _ => True) :
      Edit.Keeps sharing held (do return Reply.flag (← e)) w fun reply w' => reply.Spared w' :=
    he.bind fun _ _ h' _ _ => keeps_pure h' trivial
  have hbody {e : Edit Body} (he : Edit.Keeps sharing held e w Spares) :
      Edit.Keeps sharing held (do return Reply.body (← e)) w fun reply w' => reply.Spared w' :=
    he.bind fun _ _ h' _ hspares => keeps_pure h' hspares
  cases m with
  | push v => exact hnothing (keeps_push h (hvalues v List.mem_cons_self))
  | pushAll vs => exact hnothing (keeps_pushAll h hvalues)
  | insert index vs => exact hnothing (keeps_insert h index hvalues)
  | unshift vs => exact hnothing (keeps_unshift h hvalues)
  | set index v => exact hnothing (keeps_set h index (hvalues v List.mem_cons_self))
  | fill v => exact hnothing (keeps_fill h (hvalues v List.mem_cons_self))
  | map f =>
      refine hnothing (keeps_map h fun v b hlater hb hv => ?_)
      exact (keeps_of_outcome _ fun answer? c => hblock v b answer? c hlater hb hv).weaken
        fun x c hx => hx x rfl
  | concat others => exact hnothing (keeps_concat h fun b hb => (hoperands b hb).1)
  | delete v => exact hvalue (keeps_delete h v)
  | deleteOr v missing =>
      refine hvalue (keeps_deleteOr h (hvalues v List.mem_cons_self) fun v b hlater hb hv => ?_)
      exact (keeps_of_outcome _ fun answer? c => hblock v b answer? c hlater hb hv).weaken
        fun _ _ _ => trivial
  | deleteAt index => exact hvalue (keeps_deleteAt h index)
  | compact => exact hflag (keeps_compact h)
  | reject f =>
      refine hflag (keeps_reject h fun v b hlater hb hv => ?_)
      exact (keeps_of_outcome _ fun answer? c => hblock v b answer? c hlater hb hv).weaken
        fun _ _ _ => trivial
  | keepIf f =>
      refine hnothing (keeps_keepIf h fun v b hlater hb hv => ?_)
      exact (keeps_of_outcome _ fun answer? c => hblock v b answer? c hlater hb hv).weaken
        fun _ _ _ => trivial
  | pop => exact hvalue (keeps_pop h)
  | popN count => exact hbody (keeps_popN h count)
  | shift => exact hvalue (keeps_shift h)
  | shiftN count => exact hbody (keeps_shiftN h count)
  | slice start length =>
      refine (keeps_slice h start length).bind fun part w' h' _ hpart => ?_
      cases part with
      | none => exact keeps_pure h' trivial
      | some b => exact keeps_pure h' (hpart b rfl)
  | dup => exact hbody (keeps_dup h)
  | extract start stop =>
      exact (keeps_extractShared h start stop).bind fun _ _ h' _ hpart => keeps_pure h' hpart
  | clear => exact hnothing (keeps_clear h)
  | replace other =>
      obtain ⟨hlends, hbacks⟩ := hoperands other List.mem_cons_self
      exact hnothing (keeps_replace h hlends hbacks)
  | steal other => exact hnothing (keeps_steal h (hdonor other rfl))
  | restart size? fill? =>
      refine hnothing (keeps_restart h size? fun v hv => hvalues v ?_)
      rw [hv]
      exact List.mem_cons_self
  | restartWith size f =>
      refine hnothing (keeps_restartWith h size fun v b hlater hb hv => ?_)
      exact (keeps_of_outcome _ fun answer? c => hblock v b answer? c hlater hb hv).weaken
        fun x c hx => hx x rfl
  | rotate count => exact hnothing (keeps_rotate h count)
  | sort => exact hnothing (keeps_sort h)
  | freeze => exact hnothing (keeps_freeze h)
  | toNative => exact hnothing (keeps_toNative h)

end Mutation

structure Body.Belongs (a : Arena) (b : Body) : Prop extends b.Lends a where
  backs : ∀ k, b.store.backing? = some k → a.Backs k

theorem Body.Belongs.last {b : Arena} {body : Body} (h : body.Belongs a)
    (hknows : ∀ v, a.Knows v → b.Knows v) (hbacks : ∀ k, a.Backs k → b.Backs k) :
    body.Belongs b :=
  ⟨⟨h.fits, fun v hv => hknows v (h.known v hv)⟩, fun k hk => hbacks k (h.backs k hk)⟩

theorem Arena.Sound.belongs {b : Body} (h : a.Sound sharing held) (hb : a.body? id = some b) :
    b.Belongs a := by
  obtain ⟨o, ho, rfl⟩ := Option.map_eq_some_iff.mp hb
  exact ⟨⟨h.fits id o ho, h.known id o ho⟩, fun k hk => backs_of_object? ho hk⟩

theorem Edit.Spares.belongs {w : Workspace} {b : Body} (h : Edit.Spares b w)
    (hw : w.Kept sharing held) : b.Belongs (w.arena.setBody w.owner w.body) :=
  ⟨⟨h.lends.fits, fun v hv => Arena.knows_setBody.mpr (h.lends.known v hv)⟩,
    fun k hk => hw.backs_closed (h.backing k hk)⟩

def Reply.Belongs (a : Arena) : Reply → Prop
  | body b => b.Belongs a
  | store s => ∀ k, s.backing? = some k → a.Backs k
  | _ => True

theorem Reply.lasting_belongs : Action.Lasting fun (reply : Reply) a => reply.Belongs a := by
  intro reply b c hknows hbacks h
  cases reply with
  | body x => exact Body.Belongs.last h hknows hbacks
  | store s => exact fun k hk => hbacks k (h k hk)
  | _ => trivial

theorem Reply.Spared.belongs {w : Workspace} {reply : Reply} (h : reply.Spared w)
    (hw : w.Kept sharing held) : reply.Belongs (w.arena.setBody w.owner w.body) := by
  cases reply with
  | body b => exact Edit.Spares.belongs h hw
  | store s => exact fun k hk => hw.backs_closed (h k hk)
  | _ => trivial

namespace Mutation

/-- What a client answers for when it asks for a change: the values and arrays it gives are those
it has, and the block keeps the arena sound. -/
structure Granted (sharing : Prop) (held : List ArrayId) (a : Arena) (id : ArrayId) (m : Mutation) :
    Prop where
  owner : id ∉ held
  values : ∀ v ∈ m.values, a.Knows v
  operands : ∀ b ∈ m.operands, b.Belongs a
  donor : m.donor? = none
  block : ∀ b : Arena, (∀ v, a.Knows v → b.Knows v) → m.Behaves sharing (id :: held) b

variable {m : Mutation}

theorem Granted.keeps_edit {w : Workspace} (h : m.Granted sharing held a id)
    (hw : w.Kept sharing held) (howner : w.owner = id) (hknows : ∀ v, a.Knows v → w.arena.Knows v)
    (hbacks : ∀ k, a.Backs k → w.Backs k) :
    Edit.Keeps sharing held m.edit w fun reply w' => reply.Spared w' := by
  refine m.keeps_edit hw (fun v hv => hknows v (h.values v hv)) (fun b hb => ?_)
    (fun other hother => nomatch h.donor.symm.trans hother) (howner ▸ h.block w.arena hknows)
  have hb := h.operands b hb
  exact ⟨⟨hb.fits, fun v hv => hknows v (hb.known v hv)⟩, fun k hk => hbacks k (hb.backs k hk)⟩

theorem keeps_perform (h : a.Sound sharing held) (hm : m.Granted sharing held a id) :
    Action.Keeps sharing held (m.perform id) a fun reply b => reply.Belongs b :=
  Action.keeps_edit h hm.owner Reply.lasting_belongs
    (fun _ hw howner hknows hbacks => hm.keeps_edit hw howner hknows hbacks)
    fun reply _ hw (hreply : reply.Spared _) => hreply.belongs hw

theorem keeps_editBody {o : ArrayObject} (h : a.Sound sharing held) (ho : a.object? id = some o)
    (hlock : o.lock ≠ .free) (hm : m.Granted sharing held a id) :
    Action.Keeps sharing held (Action.editBody id m.edit) a fun reply b => reply.Belongs b :=
  Action.keeps_locked h hm.owner ho hlock
    (fun _ hw howner hknows hbacks => hm.keeps_edit hw howner hknows hbacks)
    fun reply _ hw (hreply : reply.Spared _) => hreply.belongs hw

end Mutation

/-! ## Several arrays -/

namespace Action

theorem keeps_bodyOf (h : a.Sound sharing held) (id : ArrayId) :
    (bodyOf id).Keeps sharing held a fun b c => a.body? id = some b ∧ c = a := by
  unfold Action.Keeps bodyOf
  rw [ends_bind, ends_get]
  cases hb : a.body? id with
  | none => exact .inl Fault.fatal_broken
  | some b => exact ⟨⟨h, .refl a⟩, rfl, rfl⟩

theorem keeps_checkFrozen (h : a.Sound sharing held) (b : Body) :
    (checkFrozen b).Keeps sharing held a fun _ _ => True := by
  unfold Action.Keeps checkFrozen
  split
  · rw [ends_bind, ends_get]
    exact .inr ⟨h, .refl a⟩
  · exact ⟨⟨h, .refl a⟩, trivial⟩

theorem keeps_edit_dup (h : a.Sound sharing held) (hid : id ∉ held) :
    Action.Keeps sharing held (edit id Edit.dup) a fun b c => b.Belongs c :=
  keeps_edit h hid (fun _ _ _ hknows hbacks hb => hb.last hknows hbacks)
    (fun _ hw _ _ _ => Edit.keeps_dup hw) fun _ _ hw hspares => hspares.belongs hw

theorem keeps_edit_unit {e : Edit Unit} (h : a.Sound sharing held) (hid : id ∉ held)
    (he : ∀ w : Workspace, w.Kept sharing held → w.owner = id → (∀ v, a.Knows v → w.arena.Knows v) →
      (∀ k, a.Backs k → w.Backs k) → Edit.Keeps sharing held e w fun _ _ => True) :
    Action.Keeps sharing held (edit id e) a fun _ _ => True :=
  keeps_edit h hid (fun _ _ _ _ _ _ => trivial) he fun _ _ _ _ => trivial

theorem keeps_snapshots (ids : List ArrayId) : ∀ {a : Arena}, a.Sound sharing held →
    (∀ id ∈ ids, id ∉ held) →
    Action.Keeps sharing held (snapshots ids) a fun bodies b => ∀ body ∈ bodies, body.Lends b := by
  induction ids with
  | nil => exact fun h _ => ⟨⟨h, .refl _⟩, nofun⟩
  | cons id ids ih =>
      intro a h hids
      refine (keeps_edit_dup h (hids id List.mem_cons_self)).bind fun body b hb _ hbody => ?_
      refine (ih hb fun j hj => hids j (List.mem_cons_of_mem id hj)).bind
        fun bodies c hc hlater hbodies => ⟨⟨hc, .refl c⟩, fun x hx => ?_⟩
      rcases List.mem_cons.mp hx with rfl | hx
      · exact ⟨hbody.fits, fun v hv => hlater.knows (hbody.known v hv)⟩
      · exact hbodies x hx

theorem keeps_concat (h : a.Sound sharing held) (hid : id ∉ held) {others : List ArrayId}
    (hothers : ∀ other ∈ others, other ∉ held) :
    Action.Keeps sharing held (concat id others) a fun _ _ => True := by
  refine (keeps_bodyOf h id).bind ?_
  rintro b _ - - ⟨-, rfl⟩
  refine (keeps_checkFrozen h b).bind fun _ c hc _ _ => ?_
  refine (keeps_snapshots others hc hothers).bind fun bodies d hd _ hbodies => ?_
  refine keeps_edit_unit hd hid fun w hw _ hknows _ => Edit.keeps_concat hw fun x hx => ?_
  exact ⟨(hbodies x hx).fits, fun v hv => hknows v ((hbodies x hx).known v hv)⟩

theorem keeps_replace {other : ArrayId} (h : a.Sound sharing held) (hid : id ∉ held)
    (hother : other ∉ held) : Action.Keeps sharing held (replace id other) a fun _ _ => True := by
  refine (keeps_bodyOf h id).bind ?_
  rintro b _ - - ⟨-, rfl⟩
  refine (keeps_checkFrozen h b).bind fun _ c hc _ _ => ?_
  split
  · refine (keeps_edit_dup hc hother).bind fun copy d hd _ hcopy => ?_
    refine keeps_edit_unit hd hid fun w hw _ hknows hbacks => Edit.keeps_replace hw ?_ ?_
    · exact ⟨hcopy.fits, fun v hv => hknows v (hcopy.known v hv)⟩
    · exact fun k hk => hbacks k (hcopy.backs k hk)
  · exact ⟨⟨hc, .refl c⟩, trivial⟩

theorem keeps_steal {other : ArrayId} (h : a.Sound sharing held) (hid : id ∉ held)
    (hother : other ∉ held) (hne : other ≠ id) :
    Action.Keeps sharing held (steal id other) a fun _ _ => True := by
  refine keeps_holding h hother (fun _ _ _ _ _ _ => trivial) fun b o hb _ _ _ => ?_
  refine keeps_edit_unit hb hid fun w hw howner _ _ => Edit.keeps_steal hw ?_
  rw [howner]
  exact fun hmem => (List.mem_cons.mp hmem).elim hne hother

end Action

end AdaptiveArray
