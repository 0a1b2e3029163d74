import TreeScribe.Proofs.Tree.Relabel

/-! Two trees of the same structure in one.

Trees that are the same without their labels can be put on top of each other: there is one tree, with
both labels at each node, of which they are the two sides (`Node.exists_pairing`). -/
namespace TreeScribe

variable {α β γ ι κ : Type}

/-! ### Pairing children -/

section Pairing

variable {τ υ φ ω : Type}

/-- What can be paired one by one can be paired as a list. -/
theorem exists_pairing_list {f : τ → φ} {g : υ → φ} {left : ω → τ} {right : ω → υ} {P : ω → Prop}
    (hone : ∀ t u, f t = g u → ∃ w, left w = t ∧ right w = u ∧ P w) {ts : List τ} {us : List υ}
    (h : ts.map f = us.map g) :
    ∃ ws : List ω, ws.map left = ts ∧ ws.map right = us ∧ ∀ w ∈ ws, P w := by
  induction ts generalizing us with
  | nil =>
    obtain rfl : us = [] := List.map_eq_nil_iff.mp h.symm
    exact ⟨[], rfl, rfl, nofun⟩
  | cons t ts ih =>
    obtain ⟨u, us, rfl, hu, hus⟩ := List.map_eq_cons_iff.mp h.symm
    obtain ⟨w, rfl, rfl, hw⟩ := hone t u hu.symm
    obtain ⟨ws, rfl, rfl, hws⟩ := ih hus.symm
    exact ⟨w :: ws, rfl, rfl, List.forall_mem_cons.mpr ⟨hw, hws⟩⟩

variable {f : α → γ} {g : β → γ}

/-- The two sides of a pair come to the same. -/
abbrev Paired (f : α → γ) (g : β → γ) (c : α × β) : Prop := f c.1 = g c.2

theorem exists_pairing_children {as : List α} {bs : List β} (h : as.map f = bs.map g) :
    ∃ cs : List (α × β), cs.map Prod.fst = as ∧ cs.map Prod.snd = bs ∧ ∀ c ∈ cs, Paired f g c :=
  exists_pairing_list (fun a b hab => ⟨(a, b), rfl, rfl, hab⟩) h

theorem exists_pairing_option {a : Option α} {b : Option β} (h : a.map f = b.map g) :
    ∃ c : Option (α × β), c.map Prod.fst = a ∧ c.map Prod.snd = b ∧ ∀ p ∈ c.toList, Paired f g p := by
  cases a with
  | none =>
    obtain rfl : b = none := Option.map_eq_none_iff.mp h.symm
    exact ⟨none, rfl, rfl, nofun⟩
  | some a =>
    obtain ⟨b, rfl, hb⟩ := Option.map_eq_some_iff.mp h.symm
    exact ⟨some (a, b), rfl, rfl, fun p hp => by
      obtain rfl := List.mem_singleton.mp hp
      exact hb.symm⟩

theorem exists_pairing_items {is : List (ElementInit α)} {js : List (ElementInit β)}
    (h : is.map (·.map f) = js.map (·.map g)) :
    ∃ ks : List (ElementInit (α × β)), ks.map (·.map Prod.fst) = is ∧ ks.map (·.map Prod.snd) = js ∧
      ∀ c ∈ ks.flatMap (·.arguments), Paired f g c := by
  have hone (i : ElementInit α) (j : ElementInit β) (h : i.map f = j.map g) :
      ∃ k : ElementInit (α × β), k.map Prod.fst = i ∧ k.map Prod.snd = j ∧
        ∀ c ∈ k.arguments, Paired f g c := by
    obtain ⟨m, as⟩ := i
    obtain ⟨m', bs⟩ := j
    obtain ⟨rfl, hargs⟩ := ElementInit.mk.inj h
    obtain ⟨cs, rfl, rfl, hcs⟩ := exists_pairing_children hargs
    exact ⟨⟨m, cs⟩, rfl, rfl, hcs⟩
  obtain ⟨ks, rfl, rfl, hks⟩ := exists_pairing_list hone h
  exact ⟨ks, rfl, rfl, fun c hc => by
    obtain ⟨k, hk, hc⟩ := List.mem_flatMap.mp hc
    exact hks k hk c hc⟩

theorem exists_pairing_cases {xs : List (SwitchCase α)} {ys : List (SwitchCase β)}
    (h : xs.map (·.map f) = ys.map (·.map g)) :
    ∃ zs : List (SwitchCase (α × β)), zs.map (·.map Prod.fst) = xs ∧ zs.map (·.map Prod.snd) = ys ∧
      ∀ c ∈ zs.flatMap (fun z => z.tests ++ [z.body]), Paired f g c := by
  have hone (x : SwitchCase α) (y : SwitchCase β) (h : x.map f = y.map g) :
      ∃ z : SwitchCase (α × β), z.map Prod.fst = x ∧ z.map Prod.snd = y ∧
        ∀ c ∈ z.tests ++ [z.body], Paired f g c := by
    obtain ⟨as, a⟩ := x
    obtain ⟨bs, b⟩ := y
    obtain ⟨htests, hbody⟩ := SwitchCase.mk.inj h
    obtain ⟨cs, rfl, rfl, hcs⟩ := exists_pairing_children htests
    refine ⟨⟨cs, (a, b)⟩, rfl, rfl, List.forall_mem_append.mpr ⟨hcs, ?_⟩⟩
    exact List.forall_mem_singleton.mpr hbody
  obtain ⟨zs, rfl, rfl, hzs⟩ := exists_pairing_list hone h
  exact ⟨zs, rfl, rfl, fun c hc => by
    obtain ⟨z, hz, hc⟩ := List.mem_flatMap.mp hc
    exact hzs z hz c hc⟩

theorem exists_pairing_handlers {xs : List (Handler α)} {ys : List (Handler β)}
    (h : xs.map (·.map f) = ys.map (·.map g)) :
    ∃ zs : List (Handler (α × β)), zs.map (·.map Prod.fst) = xs ∧ zs.map (·.map Prod.snd) = ys ∧
      ∀ c ∈ zs.flatMap (fun z => z.filter.toList ++ [z.body]), Paired f g c := by
  have hone (x : Handler α) (y : Handler β) (h : x.map f = y.map g) :
      ∃ z : Handler (α × β), z.map Prod.fst = x ∧ z.map Prod.snd = y ∧
        ∀ c ∈ z.filter.toList ++ [z.body], Paired f g c := by
    obtain ⟨test, caught, filter, a⟩ := x
    obtain ⟨test', caught', filter', b⟩ := y
    obtain ⟨rfl, rfl, hfilter, hbody⟩ := Handler.mk.inj h
    obtain ⟨c, rfl, rfl, hc⟩ := exists_pairing_option hfilter
    refine ⟨⟨test, caught, c, (a, b)⟩, rfl, rfl, List.forall_mem_append.mpr ⟨hc, ?_⟩⟩
    exact List.forall_mem_singleton.mpr hbody
  obtain ⟨zs, rfl, rfl, hzs⟩ := exists_pairing_list hone h
  exact ⟨zs, rfl, rfl, fun c hc => by
    obtain ⟨z, hz, hc⟩ := List.mem_flatMap.mp hc
    exact hzs z hz c hc⟩

mutual

theorem exists_pairing_binding : (x : Binding α) → (y : Binding β) →
    Binding.map f x = Binding.map g y →
    ∃ z : Binding (α × β), Binding.map Prod.fst z = x ∧ Binding.map Prod.snd z = y ∧
      ∀ c ∈ z.children, Paired f g c
  | .assignment m a, .assignment m' b, h => by
    obtain ⟨rfl, hab⟩ := Binding.assignment.inj h
    exact ⟨.assignment m (a, b), rfl, rfl, List.forall_mem_singleton.mpr hab⟩
  | .nested m xs, .nested m' ys, h => by
    obtain ⟨rfl, hxs⟩ := Binding.nested.inj h
    obtain ⟨zs, rfl, rfl, hzs⟩ := exists_pairing_bindings xs ys hxs
    exact ⟨.nested m zs, rfl, rfl, hzs⟩
  | .list m is, .list m' js, h => by
    obtain ⟨rfl, his⟩ := Binding.list.inj h
    obtain ⟨ks, rfl, rfl, hks⟩ := exists_pairing_items his
    exact ⟨.list m ks, rfl, rfl, hks⟩

theorem exists_pairing_bindings : (xs : List (Binding α)) → (ys : List (Binding β)) →
    Binding.mapAll f xs = Binding.mapAll g ys →
    ∃ zs : List (Binding (α × β)), Binding.mapAll Prod.fst zs = xs ∧
      Binding.mapAll Prod.snd zs = ys ∧ ∀ c ∈ Binding.childrenAll zs, Paired f g c
  | [], [], _ => ⟨[], rfl, rfl, nofun⟩
  | x :: xs, y :: ys, h => by
    obtain ⟨hx, hxs⟩ := List.cons.inj h
    obtain ⟨z, rfl, rfl, hz⟩ := exists_pairing_binding x y hx
    obtain ⟨zs, rfl, rfl, hzs⟩ := exists_pairing_bindings xs ys hxs
    exact ⟨z :: zs, rfl, rfl, List.forall_mem_append.mpr ⟨hz, hzs⟩⟩

end

theorem exists_pairing_creation {x : Creation α} {y : Creation β} (h : x.map f = y.map g) :
    ∃ z : Creation (α × β), z.map Prod.fst = x ∧ z.map Prod.snd = y ∧
      ∀ c ∈ z.arguments, Paired f g c := by
  obtain ⟨ty, constructor, as, members⟩ := x
  obtain ⟨ty', constructor', bs, members'⟩ := y
  obtain ⟨rfl, rfl, hargs, rfl⟩ := Creation.mk.inj h
  obtain ⟨cs, rfl, rfl, hcs⟩ := exists_pairing_children hargs
  exact ⟨⟨ty, constructor, cs, members⟩, rfl, rfl, hcs⟩

theorem Form.exists_pairing {x : Form α} {y : Form β} (h : x.map f = y.map g) :
    ∃ z : Form (α × β), z.map Prod.fst = x ∧ z.map Prod.snd = y ∧ ∀ c ∈ z.children, Paired f g c := by
  cases x with
  | constant c =>
    cases y with
    | constant c' =>
      obtain rfl := Form.constant.inj h
      exact ⟨.constant c, rfl, rfl, nofun⟩
    | _ => cases h
  | parameter v =>
    cases y with
    | parameter v' =>
      obtain rfl := Form.parameter.inj h
      exact ⟨.parameter v, rfl, rfl, nofun⟩
    | _ => cases h
  | binary op l r ty m =>
    cases y with
    | binary op' l' r' ty' m' =>
      obtain ⟨rfl, hl, hr, rfl, rfl⟩ := Form.binary.inj h
      exact ⟨.binary op (l, l') (r, r') ty m, rfl, rfl, by simp [Form.children, Paired, hl, hr]⟩
    | _ => cases h
  | unary op a ty m =>
    cases y with
    | unary op' b ty' m' =>
      obtain ⟨rfl, ha, rfl, rfl⟩ := Form.unary.inj h
      obtain ⟨c, rfl, rfl, hc⟩ := exists_pairing_option ha
      exact ⟨.unary op c ty m, rfl, rfl, hc⟩
    | _ => cases h
  | conditional a b c ty =>
    cases y with
    | conditional a' b' c' ty' =>
      obtain ⟨ha, hb, hc, rfl⟩ := Form.conditional.inj h
      exact ⟨.conditional (a, a') (b, b') (c, c') ty, rfl, rfl, by simp [Form.children, Paired, ha, hb, hc]⟩
    | _ => cases h
  | block vs as ty =>
    cases y with
    | block vs' bs ty' =>
      obtain ⟨rfl, has, rfl⟩ := Form.block.inj h
      obtain ⟨cs, rfl, rfl, hcs⟩ := exists_pairing_children has
      exact ⟨.block vs cs ty, rfl, rfl, hcs⟩
    | _ => cases h
  | lambda name vs a returnType ty =>
    cases y with
    | lambda name' vs' b returnType' ty' =>
      obtain ⟨rfl, rfl, hab, rfl, rfl⟩ := Form.lambda.inj h
      exact ⟨.lambda name vs (a, b) returnType ty, rfl, rfl, List.forall_mem_singleton.mpr hab⟩
    | _ => cases h
  | call a m as =>
    cases y with
    | call b m' bs =>
      obtain ⟨ha, rfl, has⟩ := Form.call.inj h
      obtain ⟨c, rfl, rfl, hc⟩ := exists_pairing_option ha
      obtain ⟨cs, rfl, rfl, hcs⟩ := exists_pairing_children has
      exact ⟨.call c m cs, rfl, rfl, List.forall_mem_append.mpr ⟨hc, hcs⟩⟩
    | _ => cases h
  | invoke a as ty =>
    cases y with
    | invoke b bs ty' =>
      obtain ⟨hab, has, rfl⟩ := Form.invoke.inj h
      obtain ⟨cs, rfl, rfl, hcs⟩ := exists_pairing_children has
      exact ⟨.invoke (a, b) cs ty, rfl, rfl, List.forall_mem_cons.mpr ⟨hab, hcs⟩⟩
    | _ => cases h
  | member a info =>
    cases y with
    | member b info' =>
      obtain ⟨ha, rfl⟩ := Form.member.inj h
      obtain ⟨c, rfl, rfl, hc⟩ := exists_pairing_option ha
      exact ⟨.member c info, rfl, rfl, hc⟩
    | _ => cases h
  | new n =>
    cases y with
    | new n' =>
      obtain ⟨k, rfl, rfl, hk⟩ := exists_pairing_creation (Form.new.inj h)
      exact ⟨.new k, rfl, rfl, hk⟩
    | _ => cases h
  | newArray ty as bounds =>
    cases y with
    | newArray ty' bs bounds' =>
      obtain ⟨rfl, has, rfl⟩ := Form.newArray.inj h
      obtain ⟨cs, rfl, rfl, hcs⟩ := exists_pairing_children has
      exact ⟨.newArray ty cs bounds, rfl, rfl, hcs⟩
    | _ => cases h
  | memberInit n xs =>
    cases y with
    | memberInit n' ys =>
      obtain ⟨hn, hxs⟩ := Form.memberInit.inj h
      obtain ⟨k, rfl, rfl, hk⟩ := exists_pairing_creation hn
      obtain ⟨zs, rfl, rfl, hzs⟩ := exists_pairing_bindings xs ys hxs
      exact ⟨.memberInit k zs, rfl, rfl, List.forall_mem_append.mpr ⟨hk, hzs⟩⟩
    | _ => cases h
  | listInit n xs =>
    cases y with
    | listInit n' ys =>
      obtain ⟨hn, hxs⟩ := Form.listInit.inj h
      obtain ⟨k, rfl, rfl, hk⟩ := exists_pairing_creation hn
      obtain ⟨zs, rfl, rfl, hzs⟩ := exists_pairing_items hxs
      exact ⟨.listInit k zs, rfl, rfl, List.forall_mem_append.mpr ⟨hk, hzs⟩⟩
    | _ => cases h
  | loop a out next =>
    cases y with
    | loop b out' next' =>
      obtain ⟨hab, rfl, rfl⟩ := Form.loop.inj h
      exact ⟨.loop (a, b) out next, rfl, rfl, List.forall_mem_singleton.mpr hab⟩
    | _ => cases h
  | jump kind target a ty =>
    cases y with
    | jump kind' target' b ty' =>
      obtain ⟨rfl, rfl, ha, rfl⟩ := Form.jump.inj h
      obtain ⟨c, rfl, rfl, hc⟩ := exists_pairing_option ha
      exact ⟨.jump kind target c ty, rfl, rfl, hc⟩
    | _ => cases h
  | label target a =>
    cases y with
    | label target' b =>
      obtain ⟨rfl, ha⟩ := Form.label.inj h
      obtain ⟨c, rfl, rfl, hc⟩ := exists_pairing_option ha
      exact ⟨.label target c, rfl, rfl, hc⟩
    | _ => cases h
  | switch a xs d ty =>
    cases y with
    | switch b ys d' ty' =>
      obtain ⟨hab, hxs, hd, rfl⟩ := Form.switch.inj h
      obtain ⟨zs, rfl, rfl, hzs⟩ := exists_pairing_cases hxs
      obtain ⟨c, rfl, rfl, hc⟩ := exists_pairing_option hd
      have hsubject : Paired f g (a, b) := hab
      exact ⟨.switch (a, b) zs c ty, rfl, rfl,
        List.forall_mem_append.mpr ⟨List.forall_mem_cons.mpr ⟨hsubject, hzs⟩, hc⟩⟩
    | _ => cases h
  | «try» a xs d k ty =>
    cases y with
    | «try» b ys d' k' ty' =>
      obtain ⟨hab, hxs, hd, hk, rfl⟩ := Form.try.inj h
      obtain ⟨zs, rfl, rfl, hzs⟩ := exists_pairing_handlers hxs
      obtain ⟨c, rfl, rfl, hc⟩ := exists_pairing_option hd
      obtain ⟨c', rfl, rfl, hc'⟩ := exists_pairing_option hk
      have htried : Paired f g (a, b) := hab
      have hbodies := List.forall_mem_append.mpr ⟨List.forall_mem_cons.mpr ⟨htried, hzs⟩, hc⟩
      exact ⟨.try (a, b) zs c c' ty, rfl, rfl, List.forall_mem_append.mpr ⟨hbodies, hc'⟩⟩
    | _ => cases h
  | default ty =>
    cases y with
    | default ty' =>
      obtain rfl := Form.default.inj h
      exact ⟨.default ty, rfl, rfl, nofun⟩
    | _ => cases h
  | index a info as ty =>
    cases y with
    | index b info' bs ty' =>
      obtain ⟨hab, rfl, has, rfl⟩ := Form.index.inj h
      obtain ⟨cs, rfl, rfl, hcs⟩ := exists_pairing_children has
      exact ⟨.index (a, b) info cs ty, rfl, rfl, List.forall_mem_cons.mpr ⟨hab, hcs⟩⟩
    | _ => cases h
  | typeTest a tested «exact» =>
    cases y with
    | typeTest b tested' exact' =>
      obtain ⟨hab, rfl, rfl⟩ := Form.typeTest.inj h
      exact ⟨.typeTest (a, b) tested «exact», rfl, rfl, List.forall_mem_singleton.mpr hab⟩
    | _ => cases h
  | comment text =>
    cases y with
    | comment text' =>
      obtain rfl := Form.comment.inj h
      exact ⟨.comment text, rfl, rfl, nofun⟩
    | _ => cases h
  | extension name ty display as =>
    cases y with
    | extension name' ty' display' bs =>
      obtain ⟨rfl, rfl, rfl, has⟩ := Form.extension.inj h
      obtain ⟨cs, rfl, rfl, hcs⟩ := exists_pairing_children has
      exact ⟨.extension name ty display cs, rfl, rfl, hcs⟩
    | _ => cases h

end Pairing

/-! ### Pairing trees -/

namespace Node

/-- **Trees of the same structure are the two sides of one tree.** -/
theorem exists_pairing {n : Node ι} {m : Node κ} (h : n.erase = m.erase) :
    ∃ p : Node (ι × κ), p.relabel Prod.fst = n ∧ p.relabel Prod.snd = m := by
  induction n using Node.induction generalizing m with
  | h l x ih =>
    obtain ⟨l', y⟩ := m
    rw [erase_eq_relabel, erase_eq_relabel, relabel_mk, relabel_mk] at h
    obtain ⟨z, rfl, rfl, hz⟩ := Form.exists_pairing (Node.mk.inj h).2
    have hchild (c : Node ι × Node κ) (hc : c ∈ z.children) :
        ∃ p : Node (ι × κ), p.relabel Prod.fst = c.1 ∧ p.relabel Prod.snd = c.2 := by
      refine ih c.1 ?_ (hz c hc)
      rw [Form.children_map]
      exact List.mem_map_of_mem hc
    have : Nonempty (Node (ι × κ)) := ⟨.mk (l, l') (.comment "")⟩
    choose! pair hfst hsnd using hchild
    refine ⟨.mk (l, l') (z.map pair), ?_, ?_⟩
    · rw [relabel_mk, Form.map_map]
      exact congrArg (mk l) (Form.map_congr hfst)
    · rw [relabel_mk, Form.map_map]
      exact congrArg (mk l') (Form.map_congr hsnd)

end Node
end TreeScribe
