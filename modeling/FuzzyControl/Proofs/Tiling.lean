import FuzzyControl.Proofs.Agreement
import FuzzyControl.Proofs.Mixture

/-!
# Premises as tilings

A range of tokens is read as items exactly if tiles can be laid over it, one for each item,
that leave no gap and do not overlap.  There is never more than one way to lay them.
-/

namespace FuzzyControl

def Item.Spelled (vocabulary : Vocabulary) (tokens : List String) : Item → Prop
  | .leaf proposition => Grammar.Leaf vocabulary tokens proposition
  | .bracket own => tokens = [own.keyword.text]
  | .connective own => tokens = [own.keyword.text]

structure Tile where
  start : Nat
  stop : Nat
  item : Item
deriving DecidableEq, Repr

namespace Tile

def span (tile : Tile) (tokens : List String) : List String :=
  (tokens.take tile.stop).drop tile.start

def Covers (tile : Tile) (position : Nat) : Prop :=
  tile.start ≤ position ∧ position < tile.stop

def placed (tokens : List String) (tile : Tile) : PlacedItem :=
  ⟨tile.start, tokens[tile.start]?.getD "", tile.item⟩

def Consecutive (stop : Nat) : Nat → List Tile → Prop
  | start, [] => start = stop
  | start, tile :: rest => tile.start = start ∧ Consecutive stop tile.stop rest

end Tile

/--
Tiles are laid over the range from `start` up to `stop`: their tokens spell their items, and each
position of the range lies in exactly one of them.
-/
structure IsTiling (vocabulary : Vocabulary) (tokens : List String) (start stop : Nat)
    (tiles : List Tile) : Prop where
  spelled : ∀ tile ∈ tiles, tile.item.Spelled vocabulary (tile.span tokens)
  inside : ∀ tile ∈ tiles, start ≤ tile.start ∧ tile.stop ≤ stop
  ascending : tiles.Pairwise fun first second => first.start < second.start
  covered : ∀ position, start ≤ position → position < stop →
    ∃! tile, tile ∈ tiles ∧ tile.Covers position

section Tiles

variable {vocabulary : Vocabulary} {tokens : List String} {start stop : Nat}

/-! ## Widths -/

theorem Item.width_cases (item : Item) :
    (∃ proposition, item = .leaf proposition ∧ 3 ≤ item.width ∧ item.width ≤ 5) ∨
      ((∀ proposition, item ≠ .leaf proposition) ∧ item.width = 1) := by
  cases item with
  | leaf proposition =>
      have negation : (negationTokens proposition.negated).length ≤ 1 := by
        cases proposition.negated <;> decide
      have hedge : (hedgeTokens proposition.hedge).length ≤ 1 := by
        rw [hedgeTokens, List.length_map]
        cases proposition.hedge <;> simp
      refine .inl ⟨proposition, rfl, ?_, ?_⟩ <;> rw [width] <;> omega
  | bracket _ | connective _ =>
      refine .inr ⟨fun proposition same => ?_, rfl⟩
      cases same

theorem Item.width_pos (item : Item) : 0 < item.width := by
  rcases item.width_cases with ⟨_, _, three_le, _⟩ | ⟨_, one⟩ <;> omega

theorem Item.Spelled.itemized {item : Item} (spelled : item.Spelled vocabulary tokens)
    {more : List String} {items : List Item} (rest : Itemized vocabulary more items) :
    Itemized vocabulary (tokens ++ more) (item :: items) := by
  cases item with
  | leaf proposition => exact .leaf spelled rest
  | bracket bracket =>
      cases spelled
      exact .bracket bracket rest
  | connective connective =>
      cases spelled
      exact .connective connective rest

theorem itemized_cons_iff {item : Item} {items : List Item} :
    Itemized vocabulary tokens (item :: items) ↔
      ∃ first more, tokens = first ++ more ∧ item.Spelled vocabulary first ∧
        Itemized vocabulary more items := by
  constructor
  · intro cut
    cases cut with
    | leaf spelled rest => exact ⟨_, _, rfl, spelled, rest⟩
    | bracket bracket rest => exact ⟨[_], _, rfl, rfl, rest⟩
    | connective connective rest => exact ⟨[_], _, rfl, rfl, rest⟩
  · rintro ⟨first, more, rfl, spelled, rest⟩
    exact spelled.itemized rest

theorem Item.Spelled.length_eq {item : Item} (spelled : item.Spelled vocabulary tokens) :
    tokens.length = item.width := by
  have cut := (spelled.itemized .nil).length_eq
  rwa [List.append_nil] at cut

namespace Tile

variable {tile : Tile}

/-- A tile is as long as its item is wide. -/
theorem stop_eq (spelled : tile.item.Spelled vocabulary (tile.span tokens))
    (fits : tile.stop ≤ tokens.length) : tile.stop = tile.start + tile.item.width := by
  have length_eq := spelled.length_eq
  have width_pos := tile.item.width_pos
  rw [span, length_drop_take fits] at length_eq
  omega

theorem start_lt_stop (spelled : tile.item.Spelled vocabulary (tile.span tokens))
    (fits : tile.stop ≤ tokens.length) : tile.start < tile.stop := by
  have width_pos := tile.item.width_pos
  rw [stop_eq spelled fits]
  omega

end Tile

/-! ## Tilings from the first tile on -/

namespace IsTiling

variable {tile : Tile} {tiles rest : List Tile}

theorem nil_iff : IsTiling vocabulary tokens start stop [] ↔ stop ≤ start := by
  constructor
  · intro tiling
    by_contra less
    obtain ⟨tile, ⟨member, _⟩, _⟩ := tiling.covered start (Nat.le_refl _) (Nat.lt_of_not_le less)
    cases member
  · intro empty
    refine ⟨List.forall_mem_nil _, List.forall_mem_nil _, .nil, fun position behind before => ?_⟩
    omega

/-- A tile in front of a tiling that starts where the tile stops. -/
theorem cons (here : tile.start = start) (spelled : tile.item.Spelled vocabulary (tile.span tokens))
    (inside : tile.stop ≤ stop) (fits : stop ≤ tokens.length)
    (tiling : IsTiling vocabulary tokens tile.stop stop rest) :
    IsTiling vocabulary tokens start stop (tile :: rest) := by
  have less := Tile.start_lt_stop spelled (inside.trans fits)
  have behind (other : Tile) (member : other ∈ rest) : tile.stop ≤ other.start :=
    (tiling.inside other member).1
  subst here
  refine {
    spelled := List.forall_mem_cons.2 ⟨spelled, tiling.spelled⟩
    inside := List.forall_mem_cons.2 ⟨⟨Nat.le_refl _, inside⟩, fun other member =>
      ⟨less.le.trans (behind other member), (tiling.inside other member).2⟩⟩
    ascending := .cons (fun other member => less.trans_le (behind other member)) tiling.ascending
    covered := fun position after before => ?_ }
  by_cases first : position < tile.stop
  · refine ⟨tile, ⟨List.mem_cons_self, after, first⟩, ?_⟩
    rintro other ⟨member, covers⟩
    rcases List.mem_cons.1 member with same | later
    · exact same
    · exact absurd (covers.1.trans_lt first) (Nat.not_lt_of_le (behind other later))
  · obtain ⟨own, ⟨member, covers⟩, unique⟩ :=
      tiling.covered position (Nat.le_of_not_lt first) before
    refine ⟨own, ⟨List.mem_cons_of_mem _ member, covers⟩, ?_⟩
    rintro other ⟨member, covers⟩
    rcases List.mem_cons.1 member with rfl | later
    · exact absurd covers.2 first
    · exact unique other ⟨later, covers⟩

theorem head_start (tiling : IsTiling vocabulary tokens start stop (tile :: rest))
    (fits : stop ≤ tokens.length) : tile.start = start := by
  obtain ⟨behind, inside⟩ := tiling.inside tile List.mem_cons_self
  have less := Tile.start_lt_stop (tiling.spelled tile List.mem_cons_self) (inside.trans fits)
  obtain ⟨own, ⟨member, covers⟩, _⟩ :=
    tiling.covered start (Nat.le_refl _) (behind.trans_lt (less.trans_le inside))
  have first : tile.start ≤ own.start := by
    rcases List.mem_cons.1 member with rfl | later
    · exact Nat.le_refl _
    · exact (List.rel_of_pairwise_cons tiling.ascending later).le
  exact Nat.le_antisymm (first.trans covers.1) behind

/-- Behind the first tile the others go on where it stops. -/
theorem tail (tiling : IsTiling vocabulary tokens start stop (tile :: rest))
    (fits : stop ≤ tokens.length) : IsTiling vocabulary tokens tile.stop stop rest := by
  obtain ⟨spelled, spelled_rest⟩ := List.forall_mem_cons.1 tiling.spelled
  obtain ⟨⟨behind, inside⟩, inside_rest⟩ := List.forall_mem_cons.1 tiling.inside
  obtain ⟨before_rest, ascending⟩ := List.pairwise_cons.1 tiling.ascending
  have less := Tile.start_lt_stop spelled (inside.trans fits)
  -- a tile that started earlier would share its first position with the first tile
  have apart (other : Tile) (member : other ∈ rest) : tile.stop ≤ other.start := by
    by_contra earlier
    have other_inside := inside_rest other member
    have other_less := Tile.start_lt_stop (spelled_rest other member) (other_inside.2.trans fits)
    have start_less := before_rest other member
    obtain ⟨_, _, unique⟩ := tiling.covered other.start other_inside.1
      (other_less.trans_le other_inside.2)
    have first := unique tile ⟨List.mem_cons_self, start_less.le, Nat.lt_of_not_le earlier⟩
    have second := unique other ⟨List.mem_cons_of_mem _ member, Nat.le_refl _, other_less⟩
    rw [first, ← second] at start_less
    exact Nat.lt_irrefl _ start_less
  refine {
    spelled := spelled_rest
    inside := fun other member => ⟨apart other member, (inside_rest other member).2⟩
    ascending := ascending
    covered := fun position after before => ?_ }
  obtain ⟨own, ⟨member, covers⟩, unique⟩ :=
    tiling.covered position (behind.trans (less.le.trans after)) before
  rcases List.mem_cons.1 member with rfl | later
  · exact absurd covers.2 (Nat.not_lt_of_le after)
  · exact ⟨own, ⟨later, covers⟩, fun other both =>
      unique other ⟨List.mem_cons_of_mem _ both.1, both.2⟩⟩

theorem cons_iff (fits : stop ≤ tokens.length) :
    IsTiling vocabulary tokens start stop (tile :: rest) ↔
      tile.start = start ∧ tile.item.Spelled vocabulary (tile.span tokens) ∧ tile.stop ≤ stop ∧
        IsTiling vocabulary tokens tile.stop stop rest :=
  ⟨fun tiling => ⟨tiling.head_start fits, tiling.spelled tile List.mem_cons_self,
      (tiling.inside tile List.mem_cons_self).2, tiling.tail fits⟩,
    fun ⟨here, spelled, inside, later⟩ => later.cons here spelled inside fits⟩

/-- The tiles follow one another over the whole range. -/
theorem consecutive (tiling : IsTiling vocabulary tokens start stop tiles) (ordered : start ≤ stop)
    (fits : stop ≤ tokens.length) : Tile.Consecutive stop start tiles := by
  induction tiles generalizing start with
  | nil => exact Nat.le_antisymm ordered (nil_iff.1 tiling)
  | cons tile rest ih =>
      obtain ⟨here, _, inside, later⟩ := (cons_iff fits).1 tiling
      exact ⟨here, ih later inside⟩

end IsTiling

/-! ## Tiles of given items -/

def Item.tiles (start : Nat) : List Item → List Tile
  | [] => []
  | item :: rest => ⟨start, start + item.width, item⟩ :: tiles (start + item.width) rest

theorem Item.map_tiles (start : Nat) (items : List Item) :
    (tiles start items).map (·.item) = items := by
  induction items generalizing start with
  | nil => rfl
  | cons item rest ih => rw [tiles, List.map_cons, ih]

/-- The tilings of a range are the ways to cut its tokens into items. -/
theorem isTiling_iff_itemized (ordered : start ≤ stop) (fits : stop ≤ tokens.length)
    {tiles : List Tile} :
    IsTiling vocabulary tokens start stop tiles ↔
      Itemized vocabulary ((tokens.take stop).drop start) (tiles.map (·.item)) ∧
        tiles = Item.tiles start (tiles.map (·.item)) := by
  induction tiles generalizing start with
  | nil =>
      have length_eq := length_drop_take fits start
      rw [IsTiling.nil_iff]
      constructor
      · intro empty
        have nothing : (tokens.take stop).drop start = [] :=
          List.eq_nil_of_length_eq_zero (by omega)
        rw [nothing]
        exact ⟨.nil, rfl⟩
      · rintro ⟨cut, _⟩
        have no_tokens := cut.length_eq
        rw [length_eq] at no_tokens
        exact Nat.le_of_sub_eq_zero no_tokens
  | cons tile rest ih =>
      rw [IsTiling.cons_iff fits, List.map_cons, itemized_cons_iff, Item.tiles, List.cons.injEq]
      constructor
      · rintro ⟨rfl, spelled, inside, later⟩
        obtain ⟨cut, rest_eq⟩ := (ih inside).1 later
        have less := Tile.start_lt_stop spelled (inside.trans fits)
        refine ⟨⟨_, _, drop_take_append tokens less.le inside, spelled, cut⟩, ?_⟩
        rw [← Tile.stop_eq spelled (inside.trans fits)]
        exact ⟨rfl, rest_eq⟩
      · rintro ⟨⟨own, more, range_eq, spelled, cut⟩, tile_eq, rest_eq⟩
        obtain rfl : tile.start = start := congrArg Tile.start tile_eq
        have stop_eq : tile.stop = tile.start + tile.item.width := congrArg Tile.stop tile_eq
        have width_eq := spelled.length_eq
        have lengths := congrArg List.length range_eq
        rw [List.length_append, length_drop_take fits] at lengths
        have inside : tile.stop ≤ stop := by omega
        have span_length : (tile.span tokens).length = own.length := by
          rw [Tile.span, length_drop_take (inside.trans fits)]
          omega
        rw [drop_take_append tokens (by omega) inside] at range_eq
        obtain ⟨span_eq, more_eq⟩ := List.append_inj range_eq span_length
        rw [← span_eq] at spelled
        rw [← more_eq] at cut
        rw [← stop_eq] at rest_eq
        exact ⟨rfl, spelled, inside, (ih inside).2 ⟨cut, rest_eq⟩⟩

end Tiles

/-! ## Reading lays the tiles -/

section Reading

variable {vocabulary : Vocabulary} {lexicon : Lexicon} {tokens : List String} {words : List Word}
  {start stop : Nat}

/-- Items that stand behind the tokens of those in front of them stand on their tiles. -/
theorem eq_map_tiles {placed : List PlacedItem}
    (positions : ∀ before each after, placed = before ++ each :: after →
      each.position = start + Item.widths (before.map (·.item)))
    (standing : ∀ each ∈ placed, tokens[each.position]? = some each.token) :
    placed = (Item.tiles start (placed.map (·.item))).map (·.placed tokens) := by
  induction placed generalizing start with
  | nil => rfl
  | cons first rest ih =>
      obtain ⟨here, standing_rest⟩ := List.forall_mem_cons.1 standing
      have first_position : first.position = start := positions [] first rest rfl
      have positions_rest (before : List PlacedItem) (each : PlacedItem)
          (after : List PlacedItem) (split : rest = before ++ each :: after) :
          each.position = start + first.item.width + Item.widths (before.map (·.item)) := by
        rw [positions (first :: before) each after (congrArg (first :: ·) split), List.map_cons,
          Item.widths, Nat.add_assoc]
      rw [List.map_cons, Item.tiles, List.map_cons, ← ih positions_rest standing_rest, Tile.placed,
        ← first_position, here]
      rfl

theorem eq_map_tiles_of_readItems (built : vocabulary.lexicon = .ok lexicon)
    (known : lexicon.Describes words) (fits : stop ≤ words.length) {placed : List PlacedItem}
    (read : readItems vocabulary start ((words.take stop).drop start) = .ok placed) :
    placed = (Item.tiles start (placed.map (·.item))).map
      (·.placed (words.map (·.token))) := by
  obtain ⟨_, _, _, standing⟩ :=
    (Checked.agrees_items fits (Checked.declared_of_lexicon built known) rfl).of_ok read
  have positions (before : List PlacedItem) (each : PlacedItem) (after : List PlacedItem)
      (split : placed = before ++ each :: after) :
      each.position = start + Item.widths (before.map (·.item)) :=
    position_of_readItems built (known.drop_take start stop) read split
  refine eq_map_tiles positions fun each member => ?_
  obtain ⟨word, here, same⟩ := standing each member
  rw [List.getElem?_map, here, ← same, Option.map_some]

/-- Reading gives the items of a tiling, and of any tiling there is. -/
theorem readItems_eq_ok_iff_isTiling (built : vocabulary.lexicon = .ok lexicon)
    (known : lexicon.Describes words) (ordered : start ≤ stop) (fits : stop ≤ words.length)
    {placed : List PlacedItem} :
    readItems vocabulary start ((words.take stop).drop start) = .ok placed ↔
      ∃ tiles, IsTiling vocabulary (words.map (·.token)) start stop tiles ∧
        placed = tiles.map (·.placed (words.map (·.token))) := by
  have known_range := known.drop_take start stop
  have fits_tokens : stop ≤ (words.map (·.token)).length := by rwa [List.length_map]
  have range_eq : ((words.take stop).drop start).map (·.token) =
      ((words.map (·.token)).take stop).drop start := by
    rw [List.map_drop, List.map_take]
  constructor
  · intro read
    have cut := itemized_of_readItems built known_range read
    rw [range_eq] at cut
    refine ⟨Item.tiles start (placed.map (·.item)), ?_,
      eq_map_tiles_of_readItems built known fits read⟩
    rw [isTiling_iff_itemized ordered fits_tokens, Item.map_tiles]
    exact ⟨cut, rfl⟩
  · rintro ⟨tiles, tiling, rfl⟩
    obtain ⟨cut, tiles_eq⟩ := (isTiling_iff_itemized ordered fits_tokens).1 tiling
    obtain ⟨placed, read, items_eq⟩ := readItems_of_itemized built start cut known_range range_eq
    rw [read, eq_map_tiles_of_readItems built known fits read, items_eq, ← tiles_eq]

/-- There is only one way to lay tiles over a range of known tokens. -/
theorem IsTiling.unique (built : vocabulary.lexicon = .ok lexicon)
    (known : lexicon.Describes words) (ordered : start ≤ stop) (fits : stop ≤ words.length)
    {tiles others : List Tile}
    (tiling : IsTiling vocabulary (words.map (·.token)) start stop tiles)
    (another : IsTiling vocabulary (words.map (·.token)) start stop others) : tiles = others := by
  have fits_tokens : stop ≤ (words.map (·.token)).length := by rwa [List.length_map]
  have read := (readItems_eq_ok_iff_isTiling built known ordered fits).2 ⟨tiles, tiling, rfl⟩
  have read_again := (readItems_eq_ok_iff_isTiling built known ordered fits).2
    ⟨others, another, rfl⟩
  have items_eq : tiles.map (·.item) = others.map (·.item) := by
    have placed_eq := Except.ok.inj (read.symm.trans read_again)
    have items_of_placed := congrArg (List.map (·.item)) placed_eq
    rwa [List.map_map, List.map_map] at items_of_placed
  rw [((isTiling_iff_itemized ordered fits_tokens).1 tiling).2, items_eq,
    ← ((isTiling_iff_itemized ordered fits_tokens).1 another).2]

/-- Reading by indices succeeds exactly if reading word by word does, with the same items. -/
theorem Checked.items_eq_ok_iff (built : vocabulary.lexicon = .ok lexicon)
    (known : lexicon.Describes words) (fits : stop ≤ words.length) {items : List (Nat × Item)} :
    (Table.ofWords words).items vocabulary stop start = .ok items ↔
      ∃ placed, readItems vocabulary start ((words.take stop).drop start) = .ok placed ∧
        items = placed.map place := by
  have agrees := agrees_items fits (declared_of_lexicon built known)
    (rfl : Spans words stop start ((words.take stop).drop start))
  constructor
  · intro succeeds
    obtain ⟨placed, read, same, _⟩ := agrees.of_checked succeeds
    exact ⟨placed, read, same⟩
  · rintro ⟨placed, read, rfl⟩
    obtain ⟨own, succeeds, same, _⟩ := agrees.of_ok read
    rw [succeeds, same]

end Reading

/--
A range of known tokens is read as items exactly if it can be tiled, and then as the items of its
only tiling, each with the position at which its tile starts; reading by indices finds the same.
The tiles follow one another from the first token of the range to its end, a leaf with three to
five tokens and anything else with one.
-/
theorem Vocabulary.items_tile_range {vocabulary : Vocabulary} {lexicon : Lexicon}
    (built : vocabulary.lexicon = .ok lexicon) {tokens : List String} {words : List Word}
    (found : lexicon.words tokens = .ok words) {start stop : Nat} (ordered : start ≤ stop)
    (fits : stop ≤ tokens.length) :
    (∀ placed, readItems vocabulary start ((words.take stop).drop start) = .ok placed ↔
      ∃ tiles, IsTiling vocabulary tokens start stop tiles ∧
        placed = tiles.map (·.placed tokens)) ∧
    (∀ items, (Checked.Table.ofWords words).items vocabulary stop start = .ok items ↔
      ∃ tiles, IsTiling vocabulary tokens start stop tiles ∧
        items = tiles.map fun tile => (tile.start, tile.item)) ∧
    (∀ tiles others, IsTiling vocabulary tokens start stop tiles →
      IsTiling vocabulary tokens start stop others → tiles = others) ∧
    ∀ tiles, IsTiling vocabulary tokens start stop tiles →
      Tile.Consecutive stop start tiles ∧
      ∀ tile ∈ tiles,
        (∃ proposition, tile.item = .leaf proposition ∧
          tile.start + 3 ≤ tile.stop ∧ tile.stop ≤ tile.start + 5) ∨
        (∀ proposition, tile.item ≠ .leaf proposition) ∧ tile.stop = tile.start + 1 := by
  obtain ⟨rfl, known⟩ := Lexicon.words_eq_ok_iff.1 found
  have fits_words : stop ≤ words.length := by rwa [List.length_map] at fits
  refine ⟨fun placed => readItems_eq_ok_iff_isTiling built known ordered fits_words,
    fun items => ?_, fun tiles others => IsTiling.unique built known ordered fits_words,
    fun tiles tiling => ⟨tiling.consecutive ordered fits, fun tile member => ?_⟩⟩
  · rw [Checked.items_eq_ok_iff built known fits_words]
    constructor
    · rintro ⟨placed, read, rfl⟩
      obtain ⟨tiles, tiling, rfl⟩ :=
        (readItems_eq_ok_iff_isTiling built known ordered fits_words).1 read
      exact ⟨tiles, tiling, List.map_map⟩
    · rintro ⟨tiles, tiling, rfl⟩
      exact ⟨_, (readItems_eq_ok_iff_isTiling built known ordered fits_words).2
        ⟨tiles, tiling, rfl⟩, by rw [List.map_map]; rfl⟩
  · have stop_eq := Tile.stop_eq (tiling.spelled tile member)
      ((tiling.inside tile member).2.trans fits)
    rcases tile.item.width_cases with ⟨proposition, is_leaf, three_le, le_five⟩ | ⟨no_leaf, one⟩
    · exact .inl ⟨proposition, is_leaf, by omega, by omega⟩
    · exact .inr ⟨no_leaf, by omega⟩

namespace RuleBase

def tippingTokens : List String :=
  ["if", "food", "is", "bad", "or", "(", "food", "is", "not", "very", "good", ")", "then"]

def tippingTiles : List Tile :=
  [⟨1, 4, .leaf ⟨0, 0, false, none⟩⟩, ⟨4, 5, .connective .or⟩, ⟨5, 6, .bracket .opening⟩,
    ⟨6, 11, .leaf ⟨0, 1, true, some .very⟩⟩, ⟨11, 12, .bracket .closing⟩]

theorem tipping_tiled :
    ∃ lexicon words, tipping.vocabulary.lexicon = .ok lexicon ∧
      lexicon.words tippingTokens = .ok words ∧
      readItems tipping.vocabulary 1 ((words.take 12).drop 1) =
        .ok [⟨1, "food", .leaf ⟨0, 0, false, none⟩⟩, ⟨4, "or", .connective .or⟩,
          ⟨5, "(", .bracket .opening⟩, ⟨6, "food", .leaf ⟨0, 1, true, some .very⟩⟩,
          ⟨11, ")", .bracket .closing⟩] ∧
      ∀ tiles, IsTiling tipping.vocabulary tippingTokens 1 12 tiles → tiles = tippingTiles := by
  obtain ⟨lexicon, built⟩ := tipping_lexicon
  have bad : Grammar.Leaf tipping.vocabulary ["food", "is", "bad"] ⟨0, 0, false, none⟩ :=
    @Grammar.Leaf.spelled _ 0 ⟨"food", ["bad", "good"]⟩ "bad" 0 false none rfl rfl
  have good : Grammar.Leaf tipping.vocabulary ["food", "is", "not", "very", "good"]
      ⟨0, 1, true, some .very⟩ :=
    @Grammar.Leaf.spelled _ 0 ⟨"food", ["bad", "good"]⟩ "good" 1 true (some .very) rfl rfl
  have known : ∃ words, lexicon.words tippingTokens = .ok words := by
    cases built
    exact ⟨_, rfl⟩
  have fits : 12 ≤ tippingTokens.length := Nat.le_succ 12
  have tiling : IsTiling tipping.vocabulary tippingTokens 1 12 tippingTiles :=
    .cons rfl bad (by decide) fits <|
    .cons rfl rfl (by decide) fits <|
    .cons rfl rfl (by decide) fits <|
    .cons rfl good (by decide) fits <|
    .cons rfl rfl (by decide) fits <| IsTiling.nil_iff.2 (Nat.le_refl 12)
  obtain ⟨words, found⟩ := known
  obtain ⟨reads, _, unique, _⟩ :=
    Vocabulary.items_tile_range built found (by decide : 1 ≤ 12) fits
  exact ⟨lexicon, words, built, found, (reads _).2 ⟨_, tiling, rfl⟩,
    fun tiles another => unique tiles _ another tiling⟩

end RuleBase

end FuzzyControl
