import BlockSketch.Proofs.Program.Template

namespace BlockSketch.Program

def Rendered.withCode (code : String) : Rendered → Rendered
  | .statement _ => .statement code
  | .value _ order => .value code order

/-- The texts of all sockets but `s` are the same. -/
def AgreeOff (s : Socket) (text text' : Socket → String) : Prop := ∀ s', s' ≠ s → text' s' = text s'

/-- What is made of the texts of the sockets has that of `s` in one place, whatever it is. -/
def HasOnce (s : Socket) (text : Socket → String) (f : (Socket → String) → String) : Prop :=
  ∃ a z, ∀ text', AgreeOff s text text' → f text' = a ++ text' s ++ z

/-- What is made of the texts of the sockets does not depend on that of `s`. -/
def Ignores (s : Socket) (text : Socket → String) (f : (Socket → String) → String) : Prop :=
  ∀ text', AgreeOff s text text' → f text' = f text

section Slots

variable {s : Socket} {text : Socket → String} {f g : (Socket → String) → String}

theorem Ignores.const (code : String) : Ignores s text fun _ => code := fun _ _ => rfl

theorem Ignores.other {s' : Socket} (h : s' ≠ s) : Ignores s text fun text' => text' s' :=
  fun _ ht => ht s' h

theorem Ignores.append (hf : Ignores s text f) (hg : Ignores s text g) :
    Ignores s text fun text' => f text' ++ g text' := by
  intro text' ht
  show f text' ++ g text' = f text ++ g text
  rw [hf text' ht, hg text' ht]

theorem HasOnce.self (s : Socket) (text : Socket → String) : HasOnce s text fun text' => text' s :=
  ⟨"", "", by simp⟩

theorem HasOnce.append_right (hf : HasOnce s text f) (hg : Ignores s text g) :
    HasOnce s text fun text' => f text' ++ g text' := by
  obtain ⟨a, z, hf⟩ := hf
  refine ⟨a, z ++ g text, fun text' ht => ?_⟩
  show f text' ++ g text' = _
  rw [hf text' ht, hg text' ht, String.append_assoc]

theorem HasOnce.append_left (hf : HasOnce s text f) (hg : Ignores s text g) :
    HasOnce s text fun text' => g text' ++ f text' := by
  obtain ⟨a, z, hf⟩ := hf
  refine ⟨g text ++ a, z, fun text' ht => ?_⟩
  show g text' ++ f text' = _
  simp only [hf text' ht, hg text' ht, String.append_assoc]

theorem Ignores.braced (hf : Ignores s text f) (hg : Ignores s text g) :
    Ignores s text fun text' => Program.braced (f text') (g text') :=
  ((hf.append (.const " \x7b\n")).append hg).append (.const "\x7d\n")

theorem HasOnce.braced_head (hf : HasOnce s text f) (hg : Ignores s text g) :
    HasOnce s text fun text' => braced (f text') (g text') :=
  ((hf.append_right (.const " \x7b\n")).append_right hg).append_right (.const "\x7d\n")

theorem HasOnce.braced_body (hf : Ignores s text f) (hg : HasOnce s text g) :
    HasOnce s text fun text' => braced (f text') (g text') :=
  (hg.append_left (hf.append (.const " \x7b\n"))).append_right (.const "\x7d\n")

theorem ignores_branchArm {i : Nat} (h : s ∉ armSockets i) (head : String) :
    Ignores s text fun text' => branchArm head text' i := by
  simp only [armSockets, List.mem_cons, List.not_mem_nil, or_false, not_or] at h
  exact (((Ignores.const (head ++ " (")).append (.other fun he => h.1 he.symm)).append
    (.const ")")).braced (.other fun he => h.2 he.symm)

theorem hasOnce_branchArm {i : Nat} (h : s ∈ armSockets i) (head : String) :
    HasOnce s text fun text' => branchArm head text' i := by
  simp only [armSockets, List.mem_cons, List.not_mem_nil, or_false] at h
  rcases h with rfl | rfl
  · have hhead := ((HasOnce.self (.value (indexedSlot "IF" i)) text).append_left
      (.const (head ++ " ("))).append_right (.const ")")
    exact hhead.braced_head (.other (by simp))
  · have hhead : Ignores (.statement (indexedSlot "DO" i)) text fun text' =>
        head ++ " (" ++ text' (.value (indexedSlot "IF" i)) ++ ")" :=
      ((Ignores.const (head ++ " (")).append (.other (by simp))).append (.const ")")
    exact .braced_body hhead (.self _ text)

theorem ignores_join {l : List Nat} {f : Nat → (Socket → String) → String}
    (h : ∀ i ∈ l, Ignores s text (f i)) :
    Ignores s text fun text' => String.join (l.map fun i => f i text') := by
  intro text' ht
  refine congrArg String.join (List.map_congr_left fun i hi => ?_)
  exact h i hi text' ht

theorem hasOnce_join {l : List Nat} {f : Nat → (Socket → String) → String} {i : Nat} (hn : l.Nodup)
    (hi : i ∈ l) (hf : HasOnce s text (f i)) (h : ∀ j ∈ l, j ≠ i → Ignores s text (f j)) :
    HasOnce s text fun text' => String.join (l.map fun i => f i text') := by
  induction l with
  | nil => simp at hi
  | cons j l ih =>
    rw [List.nodup_cons] at hn
    simp only [List.map_cons, String.join_cons]
    by_cases hj : j = i
    · subst hj
      refine hf.append_right (ignores_join fun k hk => h k (List.mem_cons_of_mem j hk) ?_)
      rintro rfl
      exact hn.1 hk
    · have hmem := (List.mem_cons.mp hi).resolve_left fun he => hj he.symm
      have hrest := ih hn.2 hmem fun k hk => h k (List.mem_cons_of_mem j hk)
      exact hrest.append_left (h j List.mem_cons_self hj)

theorem hasOnce_branch {m : Mutation} (h : s ∈ Rule.branch.sockets m) :
    HasOnce s text fun text' => branchArm "if" text' 0 ++
      String.join ((List.range' 1 m.elseIfCount).map (branchArm "else if" text')) ++
      if m.hasElse then braced "else" (text' (.statement "ELSE")) else "" := by
  have hfirst (hs : s ∉ armSockets 0) : Ignores s text fun text' => branchArm "if" text' 0 :=
    ignores_branchArm hs "if"
  have hothers (i : Nat) (hs : s ∉ armSockets i) :
      Ignores s text fun text' => branchArm "else if" text' i :=
    ignores_branchArm hs "else if"
  have helse (hs : s ≠ .statement "ELSE") : Ignores s text fun text' =>
      if m.hasElse then braced "else" (text' (.statement "ELSE")) else "" := by
    cases m.hasElse with
    | false => exact .const ""
    | true => exact (Ignores.const "else").braced (.other hs.symm)
  simp only [Rule.sockets, List.mem_append] at h
  rcases h with (h | h) | h
  · have hs : s ≠ .statement "ELSE" := fun he => else_not_mem_armSockets 0 (he ▸ h)
    have harms : Ignores s text fun text' =>
        String.join ((List.range' 1 m.elseIfCount).map fun i => branchArm "else if" text' i) := by
      refine ignores_join fun i hi => hothers i fun hmem => ?_
      have hzero : 0 = i := eq_of_mem_armSockets h hmem
      have hone := (List.mem_range'_1.mp hi).1
      omega
    exact ((hasOnce_branchArm h "if").append_right harms).append_right (helse hs)
  · obtain ⟨i, hi, h⟩ := List.mem_flatMap.mp h
    have hs : s ≠ .statement "ELSE" := fun he => else_not_mem_armSockets i (he ▸ h)
    have hzero : s ∉ armSockets 0 := by
      intro hmem
      have hzero : 0 = i := eq_of_mem_armSockets hmem h
      have hone := (List.mem_range'_1.mp hi).1
      omega
    have harms : HasOnce s text fun text' =>
        String.join ((List.range' 1 m.elseIfCount).map fun i => branchArm "else if" text' i) :=
      hasOnce_join List.nodup_range' hi (hasOnce_branchArm h "else if") fun j _ hj =>
        hothers j fun hmem => hj (eq_of_mem_armSockets hmem h)
    exact (harms.append_left (hfirst hzero)).append_right (helse hs)
  · cases hm : m.hasElse with
    | false => simp [hm] at h
    | true =>
      simp only [hm, if_true, List.mem_singleton] at h
      subst h
      have harms : Ignores (.statement "ELSE") text fun text' =>
          String.join ((List.range' 1 m.elseIfCount).map fun i => branchArm "else if" text' i) :=
        ignores_join fun i _ => hothers i (else_not_mem_armSockets i)
      have hlast : HasOnce (.statement "ELSE") text fun text' =>
          braced "else" (text' (.statement "ELSE")) :=
        .braced_body (.const "else") (.self _ text)
      simp only [if_true]
      exact hlast.append_left ((hfirst (else_not_mem_armSockets 0)).append harms)

theorem HasOnce.statement (h : HasOnce s text f) : ∃ a z, ∀ text', AgreeOff s text text' →
    Rendered.statement (f text') = (Rendered.statement (f text)).withCode (a ++ text' s ++ z) := by
  obtain ⟨a, z, hf⟩ := h
  exact ⟨a, z, fun text' ht => by rw [hf text' ht]; rfl⟩

/-- Every template has the text of each socket that its rule reads once. -/
theorem Rule.render_once {m : Mutation} {field : String → String} {rule : Rule}
    (hs : s ∈ rule.sockets m)
    (ho : rule = .operation → (operator? (field "OP")).isSome = true) :
    ∃ a z, ∀ text', AgreeOff s text text' → rule.render m field text' =
      (rule.render m field text).withCode (a ++ text' s ++ z) := by
  cases rule with
  | setup =>
    obtain rfl := List.mem_singleton.mp hs
    exact ((HasOnce.braced_body (.const "void setup()") (.self _ text)).append_right
      (.const "\n")).statement
  | loop =>
    obtain rfl := List.mem_singleton.mp hs
    exact (HasOnce.braced_body (.const "void loop()") (.self _ text)).statement
  | countedLoop =>
    obtain rfl := List.mem_singleton.mp hs
    exact (HasOnce.braced_body (.const _) (.self _ text)).statement
  | branch => exact (hasOnce_branch hs).statement
  | whileLoop =>
    simp only [sockets, List.mem_cons, List.not_mem_nil, or_false] at hs
    rcases hs with rfl | rfl
    · have hhead := ((HasOnce.self (.value "WHILE0") text).append_left (.const "while (")).append_right
        (.const ")")
      exact (hhead.braced_head (.other (by simp))).statement
    · have hhead : Ignores (.statement "DO0") text fun text' =>
          "while (" ++ text' (.value "WHILE0") ++ ")" :=
        ((Ignores.const "while (").append (.other (by simp))).append (.const ")")
      exact (HasOnce.braced_body hhead (.self _ text)).statement
  | operation =>
    obtain ⟨⟨symbol, order⟩, hop⟩ := Option.isSome_iff_exists.mp (ho rfl)
    have honce : HasOnce s text fun text' =>
        text' (.value "A") ++ " " ++ symbol ++ " " ++ text' (.value "B") := by
      simp only [sockets, List.mem_cons, List.not_mem_nil, or_false] at hs
      rcases hs with rfl | rfl
      · exact ((((HasOnce.self _ text).append_right (.const " ")).append_right
          (.const symbol)).append_right (.const " ")).append_right (.other (by simp))
      · exact (HasOnce.self _ text).append_left ((((Ignores.other (by simp)).append
          (.const " ")).append (.const symbol)).append (.const " "))
    obtain ⟨a, z, hf⟩ := honce
    refine ⟨a, z, fun text' ht => ?_⟩
    simp only [render, hop, Rendered.withCode]
    exact congrArg (Rendered.value · order) (hf text' ht)
  | _ => simp [sockets] at hs

end Slots

end BlockSketch.Program
