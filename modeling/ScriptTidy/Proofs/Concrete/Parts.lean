/-
Parts of sound concrete nodes. A part is read by what it plays in its node, or as one of the named parts;
either way the kind of the node tells what rank it has, and so what is read of it. The text of a node is the
piece of the source that it covers.
-/
import ScriptTidy.Proofs.Concrete.Literals
import ScriptTidy.Proofs.Concrete.Ranks

namespace ScriptTidy

open Node

variable {t : List Char} {p : Rank → Bool} {kind field : String} {c d : Cst}

/-- Whatever plays the part in a node of the kind, and is read, has a rank of the property. -/
def Kind.gives (kind field : String) (p : Rank → Bool) : Bool :=
  !tokenFields.contains field && Rank.all.all fun r => !admits kind (some field) r || p r

theorem Kind.of_gives {r : Rank} (h : Kind.gives kind field p) (hadmits : admits kind (some field) r) : p r := by
  have hr := List.all_eq_true.1 (Bool.and_eq_true_iff.1 h).2 r r.mem_all
  rwa [hadmits] at hr

theorem Kind.not_mem_of_gives (h : Kind.gives kind field p) : field ∉ tokenFields := by
  intro hmem
  rw [gives, List.contains_iff_mem.2 hmem] at h
  cases h

theorem Kind.gives_name (hname : field ∈ nameFields) (kind : String) : Kind.gives kind field Rank.isInner := by
  have hfield : field ∉ tokenFields :=
    (by decide : ∀ field ∈ nameFields, field ∉ tokenFields) field hname
  rw [gives, Bool.and_eq_true, List.all_eq_true, Bool.not_eq_true', List.contains_eq_mem, decide_eq_false_iff_not]
  refine ⟨hfield, fun r _ => ?_⟩
  cases h : admits kind (some field) r with
  | false => rfl
  | true => exact isInner_of_admits_name hname h

namespace Cst

/-- A sound node of the kind, which is read. -/
structure IsA (t : List Char) (kind : String) (c : Cst) : Prop where
  sound : c.Sound t
  named : c.mark.isNamed
  kind : c.kind = kind

/-- What plays the part in a sound node of the kind. -/
structure Plays (t : List Char) (kind field : String) (d : Cst) : Prop where
  sound : d.Sound t
  named : d.mark.isNamed ∨ field ∈ Kind.tokenFields ∨ d.kind = "default"
  admits : d.mark.isNamed → d.isComment = false → Kind.admits kind (some field) d.rank
  players : ∀ kinds, Kind.players? kind field = some kinds → d.kind ∈ kinds

/-- A named part of a sound node of the kind. -/
structure Belongs (t : List Char) (kind : String) (d : Cst) : Prop where
  sound : d.Sound t
  named : d.mark.isNamed
  admits : Kind.admits kind d.mark.field d.rank

theorem named_of_mem (hd : d ∈ c.named) : d.mark.isNamed := (Bool.and_eq_true_iff.1 (List.mem_filter.1 hd).2).1

namespace IsA

theorem fits (h : c.IsA t kind) (hd : d ∈ c.children) : d.fits kind := by
  have hregular := h.sound.regular h.named
  rw [isRegular, Bool.and_eq_true, h.kind] at hregular
  exact List.all_eq_true.1 hregular.1 d hd

theorem plays (h : c.IsA t kind) (hd : c.field? field = some d) : d.Plays t kind field := by
  have hmem := mem_of_field? hd
  have hfound : c.children.find? (fun d => d.mark.field == some field) = some d := hd
  have hfield : d.mark.field = some field := by simpa using List.find?_some hfound
  have hfits := h.fits hmem
  rw [Cst.fits, hfield, Option.all_some, Bool.and_eq_true, Bool.and_eq_true] at hfits
  obtain ⟨hadmits, hnamed, hplayers⟩ := hfits
  refine ⟨h.sound.child hmem, ?_, fun hnamed hread => ?_, fun kinds hkinds => ?_⟩
  · rwa [Bool.or_eq_true, Bool.or_eq_true, List.contains_iff_mem, beq_iff_eq, or_assoc] at hnamed
  · rwa [hnamed, hread] at hadmits
  · rw [hkinds] at hplayers
    exact List.contains_iff_mem.1 hplayers

theorem belongs (h : c.IsA t kind) (hd : d ∈ c.named) : d.Belongs t kind := by
  obtain ⟨hmem, hnamed⟩ := List.mem_filter.1 hd
  rw [Bool.and_eq_true, Bool.not_eq_true'] at hnamed
  have hadmits := (Bool.and_eq_true_iff.1 (h.fits hmem)).1
  rw [hnamed.1, hnamed.2] at hadmits
  exact ⟨h.sound.child hmem, hnamed.1, hadmits⟩

theorem suits (h : c.IsA t kind) : c.suits kind := by
  have hregular := (Bool.and_eq_true_iff.1 (h.sound.regular h.named)).2
  rwa [h.kind] at hregular

/-- All parts of a jump and the like are names. -/
theorem kind_of_jumps (h : c.IsA t kind) (hkind : kind ∈ Kind.jumps) (hd : d ∈ c.named) :
    d.kind ∈ Reader.nameKinds := by
  have hsuits := h.suits
  have hne : kind ≠ "switch_case" := fun heq => absurd (heq ▸ hkind) (by decide)
  rw [Cst.suits, if_neg (by simpa using hne), if_pos (List.contains_iff_mem.2 hkind)] at hsuits
  exact List.contains_iff_mem.1 (List.all_eq_true.1 hsuits d hd)

theorem named_ne_nil (h : c.IsA t "sequence_expression") : c.named ≠ [] := by
  have hsuits : (!c.named.isEmpty) = true := h.suits
  rwa [Bool.not_eq_true', List.isEmpty_eq_false_iff] at hsuits

end IsA

/-- What plays a part in a node is a node itself, or a token that is known by the part it plays. -/
theorem Plays.isA (h : d.Plays t kind field) {name : String} (hfield : field ∉ Kind.tokenFields)
    (hname : d.kind = name) (hdefault : name ≠ "default") : d.IsA t name := by
  refine ⟨h.sound, ?_, hname⟩
  rcases h.named with hnamed | hspecial | heq
  · exact hnamed
  · exact absurd hspecial hfield
  · exact absurd (hname.symm.trans heq) hdefault

theorem Plays.isA_player (h : d.Plays t kind field) {name : String} (hplayers : Kind.players? kind field = some [name])
    (hfield : field ∉ Kind.tokenFields) (hdefault : name ≠ "default") : d.IsA t name :=
  h.isA hfield (List.mem_singleton.1 (h.players _ hplayers)) hdefault

theorem Belongs.isA (h : d.Belongs t kind) {name : String} (hname : d.kind = name) : d.IsA t name :=
  ⟨h.sound, h.named, hname⟩

end Cst

open Cst

/-! ## Texts -/

namespace Source

/-- The text between two offsets is what lies there. -/
theorem textBetween_of_covers {start stop : Nat} {w : List Char} (h : Grammar.Covers t start stop w) :
    (ofString (String.ofList t)).reader.textBetween start stop = .ok (String.ofList w) := by
  obtain ⟨front, rest, rfl, rfl, rfl⟩ := h
  have hlength (s : List Char) : (s.flatMap String.utf8EncodeChar).length = Grammar.byteLength s := by
    induction s with
    | nil => rfl
    | cons c s ih =>
      rw [List.flatMap_cons, List.length_append, ih, String.length_utf8EncodeChar, Grammar.byteLength_cons]
  have hslice : (ofString (String.ofList (front ++ (w ++ rest)))).slice (Grammar.byteLength front)
      (Grammar.byteLength front + Grammar.byteLength w) = w.flatMap String.utf8EncodeChar := by
    rw [slice_eq, ofString, ofBytes, String.toUTF8_eq_toByteArray, String.toByteArray_ofList, List.utf8Encode,
      List.toList_data_toByteArray, ← List.append_assoc, List.flatMap_append, List.flatMap_append,
      List.take_left' (by rw [List.length_append, hlength, hlength]), List.drop_left' (hlength front)]
  refine Reader.textBetween_of_decode ?_
  rw [reader, hslice]
  exact Text.decodeUtf8_utf8Encode w

end Source

namespace Reader

variable {r : Reader}

/-- The reader reads the text, and the nodes below its own by their ranks. -/
structure Below (t : List Char) (r : Reader) : Prop where
  source : r.source = Source.ofString (String.ofList t)
  read : ∀ c, c.Sound t → (c.mark.isNamed ∨ c.kind = "default") →
    Yields (fun n => c.mark.isNamed ∧ c.isComment = false ∧ n.Ranked c.rank) (r.read c)

section Below

variable (hr : r.Below t)
include hr

theorem textBetween_of_covers {start stop : Nat} {w : List Char} (h : Grammar.Covers t start stop w) :
    r.textBetween start stop = .ok (String.ofList w) := by
  rw [textBetween, hr.source]
  exact Source.textBetween_of_covers h

theorem text_yields {check : List Char → Prop} (h : c.Reads t check) :
    Yields (fun raw => check raw.toList) (r.text c) := by
  obtain ⟨w, hcovers, hw⟩ := h
  rw [text, textBetween_of_covers hr hcovers]
  refine .pure ?_
  rwa [String.toList_ofList]

/-- The text of a literal or name. -/
theorem text_spelled (hc : c.IsA t kind) {check : List Char → Bool} (hcheck : Kind.spells? kind = some check) :
    Yields (fun raw => check raw.toList) (r.text c) :=
  text_yields hr (hc.sound.spelled hc.named (hc.kind ▸ hcheck))

/-! ## Nodes below -/

theorem read_plays (hd : d.Plays t kind field) (hgives : Kind.gives kind field p) : Yields (Has p) (r.read d) := by
  refine (hr.read d hd.sound ?_).imp fun n ⟨hnamed, hread, hranked⟩ =>
    hranked.has (Kind.of_gives hgives (hd.admits hnamed hread))
  rcases hd.named with hnamed | hspecial | hdefault
  · exact .inl hnamed
  · exact absurd hspecial (Kind.not_mem_of_gives hgives)
  · exact .inr hdefault

theorem read_belongs (hd : d.Belongs t kind) (hp : Kind.admits kind d.mark.field d.rank → p d.rank) :
    Yields (Has p) (r.read d) :=
  (hr.read d hd.sound (.inl hd.named)).imp fun _ h => h.2.2.has (hp hd.admits)

omit hr in
theorem require_plays (hc : c.IsA t kind) (field : String) :
    Yields (fun d => d.Plays t kind field) (r.require c field) := by
  unfold require
  split
  · next hd => exact .pure (hc.plays hd)
  · exact .error _

omit hr in
theorem firstNamed_head (c : Cst) : Yields (c.named.head? = some ·) (firstNamed c) := by
  unfold firstNamed
  split
  · next hd => exact .pure (by rw [hd]; rfl)
  · exact .error _

theorem readField_has (hc : c.IsA t kind) (hgives : Kind.gives kind field p) : Yields (Has p) (r.readField c field) :=
  .bind (require_plays hc field) fun _ hd => read_plays hr hd hgives

theorem readOptional_has (hc : c.IsA t kind) (hgives : Kind.gives kind field p) :
    Yields (fun n => AllHave p n.toList) (r.readOptional (c.field? field)) :=
  .option_mapM_of_mem fun _ hd => read_plays hr (hc.plays hd) hgives

section Named

variable (hc : c.IsA t kind) (hp : ∀ {field r}, Kind.admits kind field r → p r)
include hc hp

theorem readAll_has : Yields (AllHave p) (r.readAll c.named) :=
  .mapM_of_mem fun _ hd => read_belongs hr (hc.belongs hd) hp

theorem readFirst_has : Yields (Has p) (r.readFirst c) :=
  .bind (firstNamed_head c) fun _ hd => read_belongs hr (hc.belongs (List.mem_of_mem_head? hd)) hp

theorem readFirst?_has : Yields (fun n => AllHave p n.toList) (r.readFirst? c) :=
  .option_mapM_of_mem fun _ hd => read_belongs hr (hc.belongs (List.mem_of_mem_head? hd)) hp

end Named

/-- The condition in the head of a statement. -/
theorem unparenthesized_has (hd : d.Plays t kind field) (hgives : Kind.gives kind field Rank.isInner) :
    Yields (Has Rank.isInner) (r.unparenthesized d) := by
  unfold unparenthesized
  split
  · next hkind =>
    exact readFirst_has hr (hd.isA (Kind.not_mem_of_gives hgives) (beq_iff_eq.1 hkind) (by decide))
      (Kind.isInner_of_admits (by decide))
  · exact read_plays hr hd hgives

/-- Whatever node the parts are read of, each of them can stand among statements. -/
theorem read_any (hc : c.Sound t) (hd : d ∈ c.named) : Yields (Has Rank.isAny) (r.read d) :=
  (hr.read d (hc.child (mem_of_named hd)) (.inl (named_of_mem hd))).imp fun _ h => h.2.2.has rfl

theorem readAll_any (hc : c.Sound t) : Yields (AllHave Rank.isAny) (r.readAll c.named) :=
  .mapM_of_mem fun _ hd => read_any hr hc hd

theorem readFirst_any (hc : c.Sound t) : Yields (Has Rank.isAny) (r.readFirst c) :=
  .bind (firstNamed_head c) fun _ hd => read_any hr hc (List.mem_of_mem_head? hd)

/-! ## Names -/

/-- A name begins and ends like a word. -/
theorem identifier_ranked (hc : c.IsA t kind) (hkind : kind ∈ nameKinds) :
    Yields (fun n => n.Ranked .operand ∧ n.isIdentifier) (r.identifier c) := by
  have hcheck : Kind.spells? kind = some Grammar.spellsName := if_pos (List.contains_iff_mem.2 hkind)
  refine .bind (text_spelled hr hc hcheck) fun raw hraw => .pure ⟨ranked_plain ⟨allStand_nil, rfl, rfl, rfl⟩ ?_ ?_ rfl
    (fun _ hm => nomatch hm), rfl⟩
  · exact (Bool.and_eq_true_iff.1 hraw).1
  · have hword := Grammar.isWord_of_spellsName hraw
    rwa [String.ofList_toList] at hword

/-- The name that plays a part which only names can play. -/
theorem playedName_ranked (hd : d.Plays t kind field) (hplayers : Kind.players? kind field = some nameKinds)
    (hfield : field ∉ Kind.tokenFields) :
    Yields (fun n => n.Ranked .operand ∧ n.isIdentifier) (r.identifier d) := by
  have hkind := hd.players _ hplayers
  have hdefault : d.kind ≠ "default" := fun heq => absurd (heq ▸ hkind) (by decide)
  exact identifier_ranked hr (hd.isA hfield rfl hdefault) hkind

theorem name?_has (hc : c.IsA t kind) (hplayers : Kind.players? kind field = some nameKinds)
    (hfield : field ∉ Kind.tokenFields) :
    Yields (fun n => AllHave Rank.isInner n.toList) (r.identifier? (c.field? field)) :=
  .option_mapM_of_mem fun _ hd => (playedName_ranked hr (hc.plays hd) hplayers hfield).imp fun _ h => h.1.has rfl

end Below

end Reader

end ScriptTidy
