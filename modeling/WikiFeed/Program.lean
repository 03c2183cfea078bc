import WikiFeed.Catalog.Feed
import WikiFeed.Errand.Tagged
import WikiFeed.History.Feed
import WikiFeed.Icon.Feed
import WikiFeed.Phrasebook.Tagged
import WikiFeed.Prefab.Override
import WikiFeed.Prefab.Tagged
import WikiFeed.Profile.Feed
import WikiFeed.Recipe.Feed
import WikiFeed.Record.Tagged
import WikiFeed.Skill.Feed
import WikiFeed.Skin.Feed
import WikiFeed.Sprite.Tagged
import WikiFeed.Upkeep.Pages
import WikiFeed.Upkeep.Pictures

/-! # The program

All modules that do the work: the feeds and the upkeep, and the forms in which data is given to them
and taken from them. -/
