import ChannelPreset.Bytes
import ChannelPreset.Command.Arguments
import ChannelPreset.Command.Basic
import ChannelPreset.Decimal.Basic
import ChannelPreset.Decimal.Fixed
import ChannelPreset.Decimal.Shortest
import ChannelPreset.Field.Basic
import ChannelPreset.Field.Batch
import ChannelPreset.Field.Encoding
import ChannelPreset.Files.Host
import ChannelPreset.Files.Path
import ChannelPreset.Files.Pattern
import ChannelPreset.Files.Tree
import ChannelPreset.Json
import ChannelPreset.Main
import ChannelPreset.Preset.Basic
import ChannelPreset.Preset.Body
import ChannelPreset.Preset.Dump
import ChannelPreset.Preset.Error
import ChannelPreset.Preset.Event
import ChannelPreset.Preset.Header
import ChannelPreset.Preset.Tally
import ChannelPreset.Rounding
import ChannelPreset.Section.Basic
import ChannelPreset.Section.Kind
import ChannelPreset.Section.Layout
import ChannelPreset.Single.Basic
import ChannelPreset.Single.Bits
import ChannelPreset.Text.ControlSequence
import ChannelPreset.Text.Extending
import ChannelPreset.Text.Hex
import ChannelPreset.Text.Quoted
import ChannelPreset.Text.SingleByte
import ChannelPreset.Text.Unprintable
import ChannelPreset.Text.Utf8
import ChannelPreset.Token.Basic
import ChannelPreset.Token.Cursor
import ChannelPreset.Token.Tag
import ChannelPreset.Proofs.Bytes.Access
import ChannelPreset.Proofs.Field.Storage
import ChannelPreset.Proofs.Section.Layout
import ChannelPreset.Proofs.Section.Storage
import ChannelPreset.Proofs.Preset.Loop
import ChannelPreset.Proofs.Preset.RoundTrip
import ChannelPreset.Proofs.Single.Grid
import ChannelPreset.Proofs.Single.Rescaling
import ChannelPreset.Proofs.Single.Rewriting
import ChannelPreset.Proofs.Field.Numbers
import ChannelPreset.Proofs.Field.Settling
import ChannelPreset.Proofs.Section.Settling
import ChannelPreset.Proofs.Preset.Steps
import ChannelPreset.Proofs.Preset.Settling
import ChannelPreset.Proofs.Token.Extension
import ChannelPreset.Proofs.Preset.Extension
import ChannelPreset.Proofs.Files.Path
import ChannelPreset.Proofs.Files.Tree
import ChannelPreset.Proofs.Command.Effects
import ChannelPreset.Proofs.Command.Overwriting
import ChannelPreset.Proofs.Token.Sequence
import ChannelPreset.Proofs.Preset.Pairs
import ChannelPreset.Proofs.Header.Grammar
import ChannelPreset.Proofs.Body.Grammar
import ChannelPreset.Proofs.Body.Contents
import ChannelPreset.Proofs.Field.Rewriting
import ChannelPreset.Proofs.Body.Rewriting
import ChannelPreset.Proofs.Body.Redecoding
import ChannelPreset.Proofs.Body.Room
import ChannelPreset.Proofs.Token.RoundTrip
import ChannelPreset.Proofs.Command.Confined
import ChannelPreset.Proofs.Field.Finding
import ChannelPreset.Proofs.Section.Reading
import ChannelPreset.Proofs.Body.Acceptance
import ChannelPreset.Proofs.Field.Delays
import ChannelPreset.Proofs.Single.Writing
import ChannelPreset.Proofs.Field.Drifting
import ChannelPreset.Proofs.Preset.Drifting
import ChannelPreset.Proofs.Decimal.Expansion
import ChannelPreset.Proofs.Field.Rendering
import ChannelPreset.Proofs.Field.RoundTrip
import ChannelPreset.Proofs.Field.Latching
import ChannelPreset.Proofs.Field.Reordering
import ChannelPreset.Proofs.Field.Printing
import ChannelPreset.Proofs.Preset.Lines
import ChannelPreset.Proofs.Files.Looking
import ChannelPreset.Proofs.Files.Signs
import ChannelPreset.Proofs.Files.Matches
import ChannelPreset.Proofs.Files.Stem
import ChannelPreset.Proofs.Files.Standing
import ChannelPreset.Proofs.Files.Literal
import ChannelPreset.Proofs.Files.Searching
import ChannelPreset.Proofs.Command.Reading
import ChannelPreset.Proofs.Field.Filling
import ChannelPreset.Proofs.Token.Stepping
