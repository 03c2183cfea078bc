import WikiFeed.Main
import WikiFeed.Proofs.Archive.Cipher
import WikiFeed.Proofs.Catalog.Modules
import WikiFeed.Proofs.Catalog.Strings
import WikiFeed.Proofs.Closures
import WikiFeed.Proofs.History.Versions
import WikiFeed.Proofs.Phrasebook.Entries
import WikiFeed.Proofs.Phrasebook.Names
import WikiFeed.Proofs.Prefab.Arguments
import WikiFeed.Proofs.Prefab.Counting
import WikiFeed.Proofs.Prefab.Required
import WikiFeed.Proofs.Prefab.Scopes
import WikiFeed.Proofs.Prefab.Sequences
import WikiFeed.Proofs.Prefab.Splicing
import WikiFeed.Proofs.Record.Counting
import WikiFeed.Proofs.Scene.Layers
import WikiFeed.Proofs.Scene.RoundTrip
import WikiFeed.Proofs.Skin.Grants
import WikiFeed.Proofs.Sprite.Gathering
import WikiFeed.Proofs.Sprite.Truncation
import WikiFeed.Proofs.Tabular.Differences
import WikiFeed.Proofs.Tabular.Saving
